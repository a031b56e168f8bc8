import Provision.Number.Numeral
import Provision.Text.Printable

/-! Numerals that are written and read again.

An integer is written with its digits, behind a hyphen if it is negative. The reader of integers
takes this back to the same integer, over all of them, and the one of words over all words. There
is nothing blank in what is written, so trimming makes no difference to it. -/
namespace Provision

/-! ### Blanks -/

namespace Text

theorem trimChars_of_notBlank {cs : List Char} (h : ∀ c ∈ cs, isBlank c = false) :
    trimChars cs = cs := by
  have hdrop {l : List Char} (hl : ∀ c ∈ l, isBlank c = false) : l.dropWhile isBlank = l := by
    cases l with
    | nil => rfl
    | cons c rest =>
      exact List.dropWhile_cons_of_neg (Bool.eq_false_iff.mp (hl c List.mem_cons_self))
  rw [trimChars, hdrop h, hdrop fun c hc => h c (List.mem_reverse.mp hc), List.reverse_reverse]

theorem isBlank_of_isDigit {c : Char} (h : c.isDigit) : isBlank c = false := by
  have hrange : 48 ≤ c.toNat ∧ c.toNat ≤ 57 := by
    simpa [Char.isDigit, UInt32.le_iff_toNat_le] using h
  simp only [isBlank, blankRanges, List.any_cons, List.any_nil, Bool.or_false, Bool.or_eq_false_iff,
    Bool.and_eq_false_imp, decide_eq_true_eq, decide_eq_false_iff_not]
  omega

end Text

namespace Numeral

/-! ### Naturals -/

theorem digit?_of_isDigit {c : Char} (h : c.isDigit) :
    digit? 10 c = some (c.toNat - '0'.toNat) := by
  have hrange : 48 ≤ c.toNat ∧ c.toNat ≤ 57 := by
    simpa [Char.isDigit, UInt32.le_iff_toNat_le] using h
  have hlt : c.toNat - '0'.toNat < 10 := by
    rw [show '0'.toNat = 48 from rfl]
    omega
  simp only [digit?, h, if_true, if_pos hlt]

theorem digitsFrom?_eq {cs : List Char} (h : ∀ c ∈ cs, c.isDigit) (acc : Nat) :
    digitsFrom? 10 acc cs = some (Nat.ofDigitChars 10 cs acc) := by
  induction cs generalizing acc with
  | nil => rfl
  | cons c rest ih =>
    obtain ⟨hc, hrest⟩ := List.forall_mem_cons.mp h
    rw [digitsFrom?, digit?_of_isDigit hc, Option.bind_some, ih hrest, Nat.ofDigitChars_cons,
      Nat.mul_comm]

theorem isDigit_of_mem_toDigits {n : Nat} {c : Char} (h : c ∈ Nat.toDigits 10 n) : c.isDigit :=
  Nat.isDigit_of_mem_toDigits (by decide) (by decide) h

theorem nat?_toDigits (n : Nat) : nat? 10 (Nat.toDigits 10 n) = some n := by
  have hsome : (Nat.toDigits 10 n).isEmpty = false :=
    List.isEmpty_eq_false_iff.mpr Nat.toDigits_ne_nil
  rw [nat?, hsome, digitsFrom?_eq fun _ => isDigit_of_mem_toDigits, Nat.ofDigitChars_ten_toDigits]
  rfl

/-! ### Integers -/

/-- The hyphen in front of a negative integer. -/
def signChars (i : Int) : List Char := if i < 0 then ['-'] else []

theorem toList_toString (i : Int) :
    (toString i).toList = signChars i ++ Nat.toDigits 10 i.natAbs := by
  rw [Int.toString_eq_repr, Int.repr_eq_if, signChars]
  by_cases h : 0 ≤ i
  · rw [if_pos h, if_neg (by omega), Nat.toList_repr, show i.toNat = i.natAbs by omega]
    rfl
  · rw [if_neg h, if_pos (by omega), String.toList_append, Nat.toList_repr,
      show (-i).toNat = i.natAbs by omega]
    rfl

/-- Digits without a sign are read as they are. -/
theorem int?_of_isDigit {cs : List Char} (h : ∀ c ∈ cs, c.isDigit) :
    int? 10 cs = (nat? 10 cs).map Int.ofNat := by
  unfold int?
  split
  case h_1 => exact absurd (h '-' List.mem_cons_self) (by decide)
  case h_2 => exact absurd (h '+' List.mem_cons_self) (by decide)
  case h_3 => rfl

theorem int?_hyphen (cs : List Char) :
    int? 10 ('-' :: cs) = (nat? 10 cs).map fun n : Nat => -(n : Int) := by
  rw [int?]
  cases nat? 10 cs <;> rfl

/-- Every integer is read back from its text. -/
theorem int?_toString (i : Int) : int? 10 (toString i).toList = some i := by
  rw [toList_toString, signChars]
  by_cases h : i < 0
  · rw [if_pos h, List.singleton_append, int?_hyphen, nat?_toDigits, Option.map_some,
      show -(i.natAbs : Int) = i by omega]
  · rw [if_neg h, List.nil_append, int?_of_isDigit fun _ => isDigit_of_mem_toDigits, nat?_toDigits,
      Option.map_some, show Int.ofNat i.natAbs = i by rw [Int.ofNat_eq_natCast]; omega]

theorem within?_toInt (i : Int64) :
    within? (-halfWordCount) (halfWordCount - 1) i.toInt = some i.toInt := by
  have hlow := Int64.le_toInt i
  have hhigh := Int64.toInt_lt i
  have hbounds : -halfWordCount ≤ i.toInt ∧ i.toInt ≤ halfWordCount - 1 := by
    unfold halfWordCount
    omega
  simp only [within?, hbounds, decide_true, Bool.and_self, if_true]

/-- Every word is read back from its text, the lowest and the highest one included. -/
theorem int64?_toString (i : Int64) : int64? (toString i.toInt).toList = some i := by
  rw [int64?, int?_toString, Option.bind_some, within?_toInt, Option.map_some, Int64.ofInt_toInt]

/-- There is nothing to trim from the text of an integer. -/
theorem trimChars_toString (i : Int) :
    Text.trimChars (toString i).toList = (toString i).toList := by
  refine Text.trimChars_of_notBlank fun c hc => ?_
  rw [toList_toString, List.mem_append] at hc
  rcases hc with hc | hc
  · unfold signChars at hc
    split at hc
    · rw [List.mem_singleton.mp hc]
      decide
    · cases hc
  · exact Text.isBlank_of_isDigit (isDigit_of_mem_toDigits hc)

end Numeral
end Provision
