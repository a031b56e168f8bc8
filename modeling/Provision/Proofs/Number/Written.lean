import Provision.Number.Layout

/-! Doubles as keys and as values.

A double has one text where it is a key and another where it is a value, though both are made
of its shortest decimal. A key shows that it is no integer: it has a point or an exponent, while
a value has no exponent and a point only before a fraction. So the two texts of a double are the
same only if it is finite and written with a fraction. -/
namespace Provision.Double

/-! ### Characters -/

theorem point_mem_positionalText_keyLayout (digits : List Char) (k : Int) :
    '.' ∈ (keyLayout.positionalText digits k).toList := by
  unfold Layout.positionalText
  split
  · simp
  · split
    · simp [keyLayout]
    · simp

theorem e_mem_exponentText (l : Layout) (digits : List Char) (k : Int) :
    'e' ∈ (l.exponentText digits k).toList := by
  simp [Layout.exponentText]

theorem e_notMem_positionalText_plainLayout {digits : List Char} (h : 'e' ∉ digits) (k : Int) :
    'e' ∉ (plainLayout.positionalText digits k).toList := by
  unfold Layout.positionalText zeros plainLayout
  split
  · simp [h]
  · split
    · simp [h]
    · simp [mt List.mem_of_mem_take h, mt List.mem_of_mem_drop h]

/-- The sign of a number. -/
def signText (negative : Bool) : String := if negative then "-" else ""

theorem positional_plainLayout (k : Int) : plainLayout.positional k := rfl

theorem write_zero (l : Layout) (negative : Bool) (e : Int) :
    l.write (finite negative 0 e) = signText negative ++ "0" ++ l.whole := rfl

/-- Where the point of a decimal is, counted from its first digit. -/
def Decimal.point (d : Decimal) : Int := (Nat.toDigits 10 d.digits).length + d.exponent

theorem write_finite (l : Layout) (negative : Bool) {m : Nat} (hm : m ≠ 0) (e : Int) {d : Decimal}
    (hd : shortest l.tie m e = d) : l.write (finite negative m e) =
      signText negative ++ if l.positional d.point then
        l.positionalText (Nat.toDigits 10 d.digits) d.point
      else l.exponentText (Nat.toDigits 10 d.digits) d.point := by
  subst hd
  rw [Layout.write, if_neg hm]
  rfl

/-- A key that is a finite double does not look like an integer. -/
theorem point_or_e_mem_keyText (negative : Bool) (m : Nat) (e : Int) :
    '.' ∈ (finite negative m e).keyText.toList ∨ 'e' ∈ (finite negative m e).keyText.toList := by
  rw [keyText]
  by_cases hm : m = 0
  · subst hm
    rw [write_zero, String.toList_append]
    exact .inl (List.mem_append_right _ (by decide))
  · rw [write_finite keyLayout negative hm e rfl, String.toList_append]
    split
    · exact .inl (List.mem_append_right _ (point_mem_positionalText_keyLayout _ _))
    · exact .inr (List.mem_append_right _ (e_mem_exponentText _ _ _))

/-- A value that is a finite double has no exponent. -/
theorem e_notMem_plain (negative : Bool) (m : Nat) (e : Int) :
    'e' ∉ (finite negative m e).plain.toList := by
  have hsign : 'e' ∉ (signText negative).toList := by cases negative <;> decide
  have hdigits (n : Nat) : 'e' ∉ Nat.toDigits 10 n := fun h =>
    absurd (Nat.isDigit_of_mem_toDigits (by decide) (by decide) h) (by decide)
  rw [plain]
  by_cases hm : m = 0
  · subst hm
    rw [write_zero, String.toList_append, String.toList_append, List.mem_append, List.mem_append,
      not_or, not_or]
    exact ⟨⟨hsign, by decide⟩, by decide⟩
  · rw [write_finite plainLayout negative hm e rfl, if_pos (positional_plainLayout _),
      String.toList_append, List.mem_append, not_or]
    exact ⟨hsign, e_notMem_positionalText_plainLayout (hdigits _) _⟩

/-! ### Both texts -/

/-- Where the texts of a double as a key and as a value are the same, it is finite and has a
fraction, but no exponent. -/
theorem finite_of_keyText_eq {x : Double} (h : x.keyText = x.plain) :
    x.isFinite ∧ '.' ∈ x.keyText.toList ∧ 'e' ∉ x.keyText.toList := by
  cases x with
  | nan => exact absurd h (by decide)
  | infinite negative => cases negative <;> exact absurd h (by decide)
  | finite negative m e =>
    have hexponent : 'e' ∉ (finite negative m e).keyText.toList := h ▸ e_notMem_plain negative m e
    exact ⟨rfl, (point_or_e_mem_keyText negative m e).resolve_right hexponent, hexponent⟩

/-- The layouts only differ in what follows a whole number. -/
theorem positionalText_congr (l l' : Layout) {digits : List Char} {k : Int}
    (h : k < digits.length) : l.positionalText digits k = l'.positionalText digits k := by
  unfold Layout.positionalText
  split
  · rfl
  · rw [if_neg (by omega), if_neg (by omega)]

/-- A double that is not in the middle between two shortest decimals, has a fraction, and needs no
exponent as a key. -/
structure Fractional (m : Nat) (e : Int) (d : Decimal) : Prop where
  nonzero : m ≠ 0
  up : shortest .up m e = d
  even : shortest .even m e = d
  fraction : d.exponent < 0
  positional : -5 < d.point ∧ d.point ≤ 16

/-- Such a double has the same text as a key and as a value. -/
theorem Fractional.keyText_eq {m : Nat} {e : Int} {d : Decimal} (h : Fractional m e d)
    (negative : Bool) : (finite negative m e).keyText = (finite negative m e).plain := by
  have hpositional : keyLayout.positional d.point := by simp [keyLayout, h.positional]
  have hfraction : d.point < (Nat.toDigits 10 d.digits).length := by
    have := h.fraction
    unfold Decimal.point
    omega
  rw [keyText, plain, write_finite keyLayout negative h.nonzero e h.even,
    write_finite plainLayout negative h.nonzero e h.up, if_pos hpositional,
    if_pos (positional_plainLayout _), positionalText_congr _ _ hfraction]

example : (ofDecimal true 15 (-1)).plain = "-1.5" ∧ (ofDecimal true 15 (-1)).keyText = "-1.5" ∧
    (ofDecimal false 2 0).plain = "2" ∧ (ofDecimal false 2 0).keyText = "2.0" := by decide +kernel

end Provision.Double
