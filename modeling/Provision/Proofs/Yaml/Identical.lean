import Provision.Proofs.Data.Except
import Provision.Yaml.Value

/-! Values that are alike in all parts.

Documents count mappings as equal whatever the order of their entries. What is read from a text
also has an order, so it is compared part by part. -/
namespace Provision.Yaml.Value

mutual

/-- Whether two values are alike in all their parts and in the order of these. -/
def identical : Value → Value → Bool
  | .null, .null => true
  | .boolean a, .boolean b => a == b
  | .integer a, .integer b => a == b
  | .float a, .float b => a == b
  | .string a, .string b => a == b
  | .sequence a, .sequence b => identicalItems a b
  | .mapping a, .mapping b => identicalEntries a b
  | .tagged s a, .tagged t b => s == t && a.identical b
  | _, _ => false

def identicalItems : List Value → List Value → Bool
  | [], [] => true
  | a :: as, b :: bs => a.identical b && identicalItems as bs
  | _, _ => false

def identicalEntries : List (Value × Value) → List (Value × Value) → Bool
  | [], [] => true
  | (k, v) :: rest, (l, w) :: rest' =>
    k.identical l && v.identical w && identicalEntries rest rest'
  | _, _ => false

end

mutual

theorem eq_of_identical : (v w : Value) → v.identical w = true → v = w
  | .null, w, h | .boolean _, w, h | .integer _, w, h | .float _, w, h | .string _, w, h => by
    cases w <;> simp_all [identical]
  | .sequence a, w, h => by
    cases w with
    | sequence b => rw [eq_of_identicalItems a b (by simpa [identical] using h)]
    | _ => simp [identical] at h
  | .mapping a, w, h => by
    cases w with
    | mapping b => rw [eq_of_identicalEntries a b (by simpa [identical] using h)]
    | _ => simp [identical] at h
  | .tagged s a, w, h => by
    cases w with
    | tagged t b =>
      rw [identical, Bool.and_eq_true, beq_iff_eq] at h
      rw [h.1, eq_of_identical a b h.2]
    | _ => simp [identical] at h

theorem eq_of_identicalItems : (a b : List Value) → identicalItems a b = true → a = b
  | [], b, h => by cases b <;> simp_all [identicalItems]
  | v :: as, b, h => by
    cases b with
    | nil => simp [identicalItems] at h
    | cons w bs =>
      rw [identicalItems, Bool.and_eq_true] at h
      rw [eq_of_identical v w h.1, eq_of_identicalItems as bs h.2]

theorem eq_of_identicalEntries :
    (a b : List (Value × Value)) → identicalEntries a b = true → a = b
  | [], b, h => by cases b <;> simp_all [identicalEntries]
  | (k, v) :: as, b, h => by
    cases b with
    | nil => simp [identicalEntries] at h
    | cons e bs =>
      rw [identicalEntries, Bool.and_eq_true, Bool.and_eq_true] at h
      rw [eq_of_identical k e.1 h.1.1, eq_of_identical v e.2 h.1.2,
        eq_of_identicalEntries as bs h.2]

end

/-- A text is read as a given value. -/
theorem parse_eq_ok {text : String} {v : Value} (h : (parse text).map v.identical = .ok true) :
    parse text = .ok v := by
  obtain ⟨w, hw, hsame⟩ := map_eq_ok.mp h
  rw [hw, eq_of_identical v w hsame]

end Provision.Yaml.Value
