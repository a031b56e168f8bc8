import Mathlib.Data.String.Basic

/-! The octets of a text.

UTF-8 writes a character with as many octets as its number needs, and the first octet tells how
many these are. So of two characters the one with the larger number has the octets that come
later, whatever follows either, and texts compare by their octets as they do by their
characters. -/
namespace Provision.Text

/-- The octets of a text in UTF-8. -/
def octets (s : String) : List UInt8 := s.toUTF8.data.toList

theorem octets_eq (s : String) : octets s = s.toList.flatMap String.utf8EncodeChar := by
  have hbytes : s.toUTF8 = s.toList.utf8Encode := by
    rw [← String.toByteArray_ofList, String.ofList_toList]
    rfl
  rw [octets, hbytes, List.utf8Encode, List.toList_data_toByteArray]

/-- Of two numbers, one is smaller if its leading digits are, or if these are the same and its last
digit is. -/
theorem digits_lt {v w : Nat} (h : v < w) :
    v / 64 < w / 64 ∨ v / 64 = w / 64 ∧ v % 64 < w % 64 := by
  omega

theorem toNat_octet {n : Nat} (h : n < 256) : (UInt8.ofNat n).toNat = n :=
  UInt8.toNat_ofNat_of_lt h

/-- The octets of a larger character come later, whatever follows. -/
theorem utf8EncodeChar_append_lt {c d : Char} (h : c < d) (r s : List UInt8) :
    String.utf8EncodeChar c ++ r < String.utf8EncodeChar d ++ s := by
  have hlt : c.val.toNat < d.val.toNat := UInt32.lt_iff_toNat_lt.mp h
  have hmax : d.val.toNat < 0x110000 := by
    rcases d.valid with hsmall | hlarge
    · exact Nat.lt_trans hsmall (by decide)
    · exact hlarge.2
  unfold String.utf8EncodeChar
  generalize c.val.toNat = v at *
  generalize d.val.toNat = w at *
  -- Characters of as many octets are compared digit by digit, in base 64.
  have hlast := digits_lt hlt
  have hthird : v / 64 < w / 64 → _ := digits_lt
  have hsecond : v / 64 / 64 < w / 64 / 64 → _ := digits_lt
  simp only [Nat.div_div_eq_div_mul, Nat.reduceMul] at hthird hsecond
  have hfirst : v / 262144 % 8 = v / 262144 := Nat.mod_eq_of_lt (by omega)
  have hfirst' : w / 262144 % 8 = w / 262144 := Nat.mod_eq_of_lt (by omega)
  dsimp only
  split_ifs <;>
    simp (disch := omega) only [List.cons_append, List.nil_append, List.cons_lt_cons_iff,
      UInt8.lt_iff_toNat_lt, ← UInt8.toNat_inj, toNat_octet] <;> omega

theorem flatMap_utf8EncodeChar_lt {l l' : List Char} (h : l < l') :
    l.flatMap String.utf8EncodeChar < l'.flatMap String.utf8EncodeChar := by
  induction l generalizing l' with
  | nil =>
    match l' with
    | [] => exact absurd h (List.not_lt_nil [])
    | d :: rest' =>
      cases hd : String.utf8EncodeChar d with
      | nil => exact absurd hd String.utf8EncodeChar_ne_nil
      | cons b bs =>
        rw [List.flatMap_nil, List.flatMap_cons, hd]
        exact List.nil_lt_cons b _
  | cons c rest ih =>
    match l' with
    | [] => exact absurd h (List.not_lt_nil _)
    | d :: rest' =>
      rw [List.flatMap_cons, List.flatMap_cons]
      rcases List.cons_lt_cons_iff.mp h with hlt | ⟨rfl, hrest⟩
      · exact utf8EncodeChar_append_lt hlt _ _
      · exact List.append_left_lt (ih hrest)

/-- Texts compare by their octets as they do by their characters. -/
theorem octets_lt_octets {s t : String} (h : s < t) : octets s < octets t := by
  rw [octets_eq, octets_eq]
  exact flatMap_utf8EncodeChar_lt h

end Provision.Text
