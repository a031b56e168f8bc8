import Provision.Proofs.Data.Except
import Provision.Yaml.Value

/-! Keys of documents.

Keys that differ as values can have one text, such as `1` and `"1"`. This does not happen to a
text with an underscore: of all keys only a string has it. So no mapping that is read has two
entries under such a text. -/
namespace Provision

/-! ### Texts of keys -/

namespace Double

section
variable {digits : List Char} (h : '_' ∉ digits) (k : Int)
include h

theorem underscore_notMem_positionalText :
    '_' ∉ (keyLayout.positionalText digits k).toList := by
  unfold Layout.positionalText zeros keyLayout
  split
  · simp [h]
  · split
    · simp [h]
    · simp [h, mt List.mem_of_mem_take, mt List.mem_of_mem_drop]

theorem underscore_notMem_exponentText : '_' ∉ (keyLayout.exponentText digits k).toList := by
  have hexponent (n : Nat) : '_' ∉ (toString n).toList := by
    rw [Nat.toString_eq_ofList_toDigits, String.toList_ofList]
    exact Nat.underscore_not_in_toDigits
  have hfraction : '_' ∉ (if (String.ofList (digits.drop 1)).isEmpty then ""
      else "." ++ String.ofList (digits.drop 1)).toList := by
    split
    · simp
    · simp [mt List.mem_of_mem_tail h]
  have hminus : '_' ∉ (if k < 1 then "-" else keyLayout.plus).toList := by
    split <;> simp [keyLayout]
  simp only [Layout.exponentText, String.toList_append, List.mem_append, not_or]
  exact ⟨⟨⟨⟨by simp [h, mt List.mem_of_mem_take], hfraction⟩, by simp⟩, hminus⟩, hexponent _⟩

end

theorem underscore_notMem_keyText (x : Double) : '_' ∉ x.keyText.toList := by
  cases x with
  | nan => decide
  | infinite negative => cases negative <;> decide
  | finite negative m e =>
    have hsign : '_' ∉ (if negative then "-" else "").toList := by cases negative <;> decide
    have hdigits (n : Nat) : '_' ∉ Nat.toDigits 10 n := Nat.underscore_not_in_toDigits
    rw [keyText, Layout.write]
    dsimp only
    split
    · simp [keyLayout, hsign]
    · rw [String.toList_append, List.mem_append, not_or]
      refine ⟨hsign, ?_⟩
      split
      · exact underscore_notMem_positionalText (hdigits _) _
      · exact underscore_notMem_exponentText (hdigits _) _

end Double

namespace Yaml.Value

/-- Of all keys only a string has a text with an underscore. -/
theorem eq_string_of_text? {k : Value} {name : String} (hname : '_' ∈ name.toList)
    (h : k.text? = some name) : k = .string name := by
  have hnat (n : Nat) : '_' ∉ n.repr.toList := by
    rw [Nat.toList_repr]
    exact Nat.underscore_not_in_toDigits
  cases k with
  | string s =>
    cases h
    rfl
  | boolean b =>
    cases h
    cases b <;> exact absurd hname (by decide)
  | integer i =>
    cases h
    cases i with
    | ofNat n => exact absurd hname (hnat n)
    | negSucc n =>
      have htext : toString (Int.negSucc n) = "-" ++ (n + 1).repr := rfl
      rw [htext, String.toList_append, List.mem_append] at hname
      rcases hname with hname | hname
      · exact absurd hname (by decide)
      · exact absurd hname (hnat _)
  | float x =>
    cases h
    exact absurd hname x.underscore_notMem_keyText
  | _ => cases h

/-! ### Distinct keys -/

/-- No key is there twice, as a value. -/
def DistinctKeys (entries : List (Value × Value)) : Prop :=
  entries.Pairwise fun a b => a.1.same b.1 = false

/-- At most one entry has a text with an underscore as its key. -/
theorem DistinctKeys.pairwise_text? {entries : List (Value × Value)} (h : DistinctKeys entries)
    {name : String} (hname : '_' ∈ name.toList) :
    entries.Pairwise fun a b => ¬ (a.1.text? = some name ∧ b.1.text? = some name) := by
  refine h.imp fun {a b} hdiffer ⟨ha, hb⟩ => ?_
  rw [eq_string_of_text? hname ha, eq_string_of_text? hname hb, same, beq_self_eq_true] at hdiffer
  cases hdiffer

theorem distinctKeys_addEntry {entries entries' : List (Value × Value)} {k v : Value}
    (h : addEntry entries k v = .ok entries') (hdistinct : DistinctKeys entries) :
    DistinctKeys entries' := by
  unfold addEntry at h
  split at h
  case isTrue => cases h
  case isFalse hnew =>
    cases h
    refine List.pairwise_append.mpr ⟨hdistinct, List.pairwise_singleton _ _, fun a ha b hb => ?_⟩
    rw [List.mem_singleton] at hb
    subst hb
    simpa using fun hsame => hnew (List.any_eq_true.mpr ⟨a, ha, hsame⟩)

theorem distinctKeys_ofEntries {nodes : List (Node × Node)} {before entries : List (Value × Value)}
    (h : ofEntries before nodes = .ok entries) (hbefore : DistinctKeys before) :
    DistinctKeys entries := by
  induction nodes generalizing before with
  | nil =>
    rw [ofEntries] at h
    cases h
    exact hbefore
  | cons node rest ih =>
    obtain ⟨k, v⟩ := node
    rw [ofEntries] at h
    obtain ⟨key, _, h⟩ := bind_eq_ok.mp h
    obtain ⟨value, _, h⟩ := bind_eq_ok.mp h
    obtain ⟨entries₁, hadd, h⟩ := bind_eq_ok.mp h
    exact ih h (distinctKeys_addEntry hadd hbefore)

theorem ne_mapping_of_ofPlain {text : String} {v : Value} (h : ofPlain text = .ok v)
    (entries : List (Value × Value)) : v ≠ .mapping entries := by
  rintro rfl
  simp only [ofPlain, pure, Except.pure, bind, Except.bind] at h
  repeat' split at h
  all_goals cases h

theorem eq_mapping_of_withTag {tag : Option Tag} {v : Value} {entries : List (Value × Value)}
    (h : withTag tag v = .mapping entries) : v = .mapping entries := by
  unfold withTag at h
  split at h
  · cases h
  · exact h

theorem ne_mapping_of_ofScalar {tag : Option Tag} {text : String} {style : Style} {v : Value}
    (h : ofScalar tag text style = .ok v) (entries : List (Value × Value)) :
    v ≠ .mapping entries := by
  rintro rfl
  unfold ofScalar at h
  split at h
  case h_5 => cases h
  case h_6 =>
    split at h
    · obtain ⟨v, hv, h⟩ := bind_eq_ok.mp h
      exact ne_mapping_of_ofPlain hv entries (eq_mapping_of_withTag (Except.ok.inj h))
    · cases eq_mapping_of_withTag (Except.ok.inj h)
  case h_3 =>
    obtain ⟨i?, _, h⟩ := bind_eq_ok.mp h
    cases i? <;> cases h
  all_goals
    split at h <;> cases h

/-- A mapping comes from a mapping. -/
theorem distinctKeys_ofNode {n : Node} {entries : List (Value × Value)}
    (h : ofNode n = .ok (.mapping entries)) : DistinctKeys entries := by
  cases n with
  | scalar tag text style =>
    rw [ofNode] at h
    exact absurd rfl (ne_mapping_of_ofScalar h entries)
  | sequence tag items =>
    rw [ofNode] at h
    obtain ⟨_, _, h⟩ := bind_eq_ok.mp h
    cases eq_mapping_of_withTag (Except.ok.inj h)
  | mapping tag nodes =>
    rw [ofNode] at h
    obtain ⟨_, hentries, h⟩ := bind_eq_ok.mp h
    cases eq_mapping_of_withTag (Except.ok.inj h)
    exact distinctKeys_ofEntries hentries .nil

/-- In a document that is read, no key is there twice. -/
theorem distinctKeys_of_parse {text : String} {entries : List (Value × Value)}
    (h : Value.parse text = .ok (.mapping entries)) : DistinctKeys entries := by
  obtain ⟨node?, _, h⟩ := bind_eq_ok.mp h
  cases node? with
  | none => cases h
  | some n => exact distinctKeys_ofNode h

end Yaml.Value
end Provision
