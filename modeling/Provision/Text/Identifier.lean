/-! Names as identifiers.

Generated documents name things by a reduced form of the model's names: ASCII
letters in lower case, digits and underscores stay, every other character becomes
an underscore. The result has the length of the name and reducing it again changes
nothing. -/
namespace Provision.Text

/-- A character of an identifier: `[a-z0-9_]`. -/
def isIdentifierChar (c : Char) : Bool := c.isLower || c.isDigit || c == '_'

def identifierChar (c : Char) : Char :=
  if isIdentifierChar c.toLower then c.toLower else '_'

def identifier (s : String) : String := String.ofList (s.toList.map identifierChar)

theorem isIdentifierChar_identifierChar (c : Char) : isIdentifierChar (identifierChar c) := by
  unfold identifierChar
  split
  · assumption
  · rfl

theorem notMem_identifier {c : Char} (h : isIdentifierChar c = false) (s : String) :
    c ∉ (identifier s).toList := by
  rw [identifier, String.toList_ofList]
  intro hc
  obtain ⟨d, _, rfl⟩ := List.mem_map.mp hc
  rw [isIdentifierChar_identifierChar] at h
  cases h

theorem length_identifier (s : String) : (identifier s).length = s.length := by
  simp [identifier, String.length_toList]

/-- ASCII letters in upper case, everything else as it is. -/
def upper (s : String) : String := String.ofList (s.toList.map Char.toUpper)

/-- ASCII letters in lower case, everything else as it is. -/
def lower (s : String) : String := String.ofList (s.toList.map Char.toLower)

/-- Every occurrence of a character replaced by another. -/
def swap (a b : Char) (s : String) : String :=
  String.ofList (s.toList.map fun c => if c = a then b else c)

theorem length_swap (a b : Char) (s : String) : (swap a b s).length = s.length := by
  simp [swap, String.length_toList]

/-- A text can be got back if the new character does not occur in it. -/
theorem swap_swap {a b : Char} {s : String} (h : b ∉ s.toList) : swap b a (swap a b s) = s := by
  rw [swap, swap, String.toList_ofList, List.map_map]
  refine String.toList_injective ((String.toList_ofList.trans ?_).trans (List.map_id _))
  refine List.map_congr_left fun c hc => ?_
  have hne : c ≠ b := fun heq => h (heq ▸ hc)
  by_cases hca : c = a <;> simp [hca, hne]

end Provision.Text
