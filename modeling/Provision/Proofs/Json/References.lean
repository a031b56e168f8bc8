import Provision.Json.Value
import Provision.Proofs.Data.OrderedMap
import Mathlib.Data.List.Perm.Basic
import Mathlib.Data.Set.List

/-! References in structured values.

A document refers to one of its parts by an object that has the part's name under a fixed
key. What stands under a key can be read off a value, wherever in the value it is. -/
namespace Provision.Json

/-- The text of a member under a key. -/
def ownText (key name : String) : Json → List String
  | .string s => if name = key then [s] else []
  | _ => []

mutual

/-- The texts under a key, anywhere in a value. -/
def textsAt (key : String) : Json → List String
  | .array items => textsAtItems key items
  | .object members => textsAtMembers key members
  | _ => []

def textsAtItems (key : String) : List Json → List String
  | [] => []
  | v :: rest => v.textsAt key ++ textsAtItems key rest

def textsAtMembers (key : String) : List (String × Json) → List String
  | [] => []
  | (name, v) :: rest => (ownText key name v ++ v.textsAt key) ++ textsAtMembers key rest

end

/-- The texts that a member of an object has under a key. -/
def memberTexts (key : String) (member : String × Json) : List String :=
  ownText key member.1 member.2 ++ member.2.textsAt key

theorem textsAt_array (key : String) (items : List Json) :
    (array items).textsAt key = items.flatMap (textsAt key) := by
  rw [textsAt]
  induction items with
  | nil => rfl
  | cons v rest ih => rw [textsAtItems, ih, List.flatMap_cons]

theorem textsAt_object (key : String) (members : List (String × Json)) :
    (object members).textsAt key = members.flatMap (memberTexts key) := by
  rw [textsAt]
  induction members with
  | nil => rfl
  | cons m rest ih => rw [textsAtMembers, ih, List.flatMap_cons, memberTexts]

theorem memberTexts_of_ne {key name : String} (h : name ≠ key) (v : Json) :
    memberTexts key (name, v) = v.textsAt key := by
  cases v <;> simp [memberTexts, ownText, h]

theorem memberTexts_string {key name : String} (h : name ≠ key) (s : String) :
    memberTexts key (name, .string s) = [] :=
  memberTexts_of_ne h _

/-- A text that may be left out. -/
theorem flatMap_memberTexts_string? {key name : String} (h : name ≠ key) (s? : Option String) :
    (s?.map fun s => (name, Json.string s)).toList.flatMap (memberTexts key) = [] := by
  cases s? with
  | none => rfl
  | some s => simp [memberTexts_string h]

theorem textsAt_sorted_eq_nil {key : String} {members : List (String × Json)}
    (h : ∀ m ∈ members, memberTexts key m = []) : (sorted members).textsAt key = [] := by
  rw [sorted, textsAt_object]
  refine List.flatMap_eq_nil_iff.mpr fun m hm => h m ?_
  exact OrderedMap.mem_of_mem_ofList ((sort_perm _ _).mem_iff.mp hm)

theorem textsAt_strings (key : String) (l : List String) : (strings l).textsAt key = [] := by
  rw [strings, textsAt_array, List.flatMap_map]
  exact List.flatMap_eq_nil_iff.mpr fun s _ => rfl

/-! ### Members -/

/-- What an object has under a name. -/
def member? (name : String) : Json → Option Json
  | .object members => OrderedMap.lookup name members
  | _ => none

theorem member?_object (name : String) (members : List (String × Json)) :
    member? name (.object members) = OrderedMap.lookup name members := rfl

/-- Arranging the members by name changes none of them. -/
theorem member?_sorted (name : String) (members : List (String × Json)) :
    member? name (.sorted members) = (OrderedMap.ofList members).get? name :=
  OrderedMap.lookup_perm (sort_perm _ _) (OrderedMap.ofList members).nodup name

/-- A member that is a text. -/
def textMember? : String × Json → Option (String × String)
  | (name, .string s) => some (name, s)
  | _ => none

/-- The members of an object of which all are texts. -/
def textMembers? : Json → Option (List (String × String))
  | .object members => members.mapM textMember?
  | _ => none

def textMember (e : String × String) : String × Json := (e.1, .string e.2)

theorem mapM_textMember? (l : List (String × String)) :
    (l.map textMember).mapM textMember? = some l := by
  rw [List.mapM_map]
  exact List.mapM_pure.trans (congrArg some l.map_id)

theorem textMembers?_texts (m : OrderedMap String String) :
    textMembers? (.texts m) = some m.toList :=
  mapM_textMember? m.toList

theorem textMember_injective : Function.Injective textMember := by
  rintro ⟨_, _⟩ ⟨_, _⟩ h
  cases h
  rfl

/-- Texts in another order are read as the same texts. -/
theorem exists_mapM_textMember?_of_perm {members : List (String × Json)}
    {l : List (String × String)} (h : members.Perm (l.map textMember)) :
    ∃ l', members.mapM textMember? = some l' ∧ l'.Perm l := by
  have hrange : members ∈ Set.range (List.map textMember) := by
    rw [Set.range_list_map]
    intro member hmember
    obtain ⟨e, _, he⟩ := List.mem_map.mp (h.mem_iff.mp hmember)
    exact ⟨e, he⟩
  obtain ⟨l', rfl⟩ := hrange
  exact ⟨l', mapM_textMember? l', (List.map_perm_map_iff textMember_injective).mp h⟩

theorem textMembers?_sorted (m : OrderedMap String String) :
    ∃ l, textMembers? (.sorted (m.toList.map textMember)) = some l ∧ l.Perm m.toList := by
  have hkeys : ((m.toList.map textMember).map Prod.fst).Nodup := by
    rw [List.map_map]
    exact m.nodup
  rw [sorted, OrderedMap.toList_ofList hkeys]
  exact exists_mapM_textMember?_of_perm (sort_perm _ _)

end Provision.Json
