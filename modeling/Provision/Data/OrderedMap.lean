/-! Maps that remember the order of insertion.

The keys of an `OrderedMap` stand in the order of their first insertion; a value
inserted under a key that is already there takes the old value's place. Merging
inserts the entries of one map into another, so a merge has every key once, where
it first occurs, with the value it last had. That each key stands once is part of
the type. -/
namespace Provision

variable {α β γ : Type}

/-- A map that lists its keys in the order of their first insertion. -/
structure OrderedMap (α β : Type) where
  entries : List (α × β)
  nodup : (entries.map Prod.fst).Nodup

namespace OrderedMap

/-! ### Entry lists -/

section Entries
variable [DecidableEq α]

/-- The value of an entry list at a key. -/
def lookup (k : α) : List (α × β) → Option β
  | [] => none
  | (a, b) :: rest => if a = k then some b else lookup k rest

/-- Replaces the value at a key, or adds the key at the end. -/
def put (k : α) (v : β) : List (α × β) → List (α × β)
  | [] => [(k, v)]
  | (a, b) :: rest => if a = k then (a, v) :: rest else (a, b) :: put k v rest

theorem mem_keys_put {k a : α} {v : β} {l : List (α × β)} :
    a ∈ (put k v l).map Prod.fst ↔ a = k ∨ a ∈ l.map Prod.fst := by
  induction l with
  | nil => simp [put]
  | cons p rest ih =>
    obtain ⟨b, w⟩ := p
    by_cases h : b = k
    · subst h
      simp [put]
    · simp only [put, if_neg h, List.map_cons, List.mem_cons, ih]
      grind

theorem nodup_put (k : α) (v : β) {l : List (α × β)} (h : (l.map Prod.fst).Nodup) :
    ((put k v l).map Prod.fst).Nodup := by
  induction l with
  | nil => simp [put]
  | cons p rest ih =>
    obtain ⟨b, w⟩ := p
    rw [List.map_cons, List.nodup_cons] at h
    by_cases hb : b = k
    · simp only [put, if_pos hb, List.map_cons, List.nodup_cons]
      exact h
    · simp only [put, if_neg hb, List.map_cons, List.nodup_cons, mem_keys_put]
      exact ⟨fun hm => hm.elim hb h.1, ih h.2⟩

/-- A key that is there keeps its place, a new one comes last. -/
theorem keys_put (k : α) (v : β) (l : List (α × β)) :
    (put k v l).map Prod.fst =
      if k ∈ l.map Prod.fst then l.map Prod.fst else l.map Prod.fst ++ [k] := by
  induction l with
  | nil => simp [put]
  | cons p rest ih =>
    obtain ⟨b, w⟩ := p
    by_cases hb : b = k
    · subst hb
      simp [put]
    · simp only [put, if_neg hb, List.map_cons, ih, List.mem_cons]
      have hk : ¬ k = b := fun h => hb h.symm
      by_cases hm : k ∈ rest.map Prod.fst <;> simp [hm, hk]

theorem lookup_put (k a : α) (v : β) (l : List (α × β)) :
    lookup a (put k v l) = if k = a then some v else lookup a l := by
  induction l with
  | nil => simp [put, lookup]
  | cons p rest ih =>
    obtain ⟨b, w⟩ := p
    by_cases hb : b = k
    · subst hb
      by_cases ha : b = a <;> simp [put, lookup, ha]
    · by_cases ha : b = a
      · subst ha
        have hk : ¬ k = b := fun h => hb h.symm
        simp [put, lookup, hb, hk]
      · simp [put, lookup, hb, ha, ih]

end Entries

/-! ### Maps -/

def empty : OrderedMap α β := ⟨[], .nil⟩

instance : Inhabited (OrderedMap α β) := ⟨empty⟩
instance : EmptyCollection (OrderedMap α β) := ⟨empty⟩

def toList (m : OrderedMap α β) : List (α × β) := m.entries

def keys (m : OrderedMap α β) : List α := m.entries.map Prod.fst

def values (m : OrderedMap α β) : List β := m.entries.map Prod.snd

def size (m : OrderedMap α β) : Nat := m.entries.length

def isEmpty (m : OrderedMap α β) : Bool := m.entries.isEmpty

/-- Changes the values and keeps the keys. -/
def map (f : β → γ) (m : OrderedMap α β) : OrderedMap α γ :=
  ⟨m.entries.map fun p => (p.1, f p.2), by
    simpa [List.map_map, Function.comp_def] using m.nodup⟩

variable [DecidableEq α]

def get? (m : OrderedMap α β) (k : α) : Option β := lookup k m.entries

def contains (m : OrderedMap α β) (k : α) : Bool := (m.get? k).isSome

def insert (m : OrderedMap α β) (k : α) (v : β) : OrderedMap α β :=
  ⟨put k v m.entries, nodup_put k v m.nodup⟩

/-- Inserts only where the key is new. -/
def insertNew (m : OrderedMap α β) (k : α) (v : β) : OrderedMap α β :=
  if m.contains k then m else m.insert k v

/-- Changes the value at a key that is there. -/
def adjust (m : OrderedMap α β) (k : α) (f : β → β) : OrderedMap α β :=
  match m.get? k with
  | some v => m.insert k (f v)
  | none => m

/-- Inserts the entries one by one. -/
def extend (m : OrderedMap α β) (l : List (α × β)) : OrderedMap α β :=
  l.foldl (fun acc p => acc.insert p.1 p.2) m

def ofList (l : List (α × β)) : OrderedMap α β := empty.extend l

/-- The entries of the second map inserted into the first. -/
def merge (m n : OrderedMap α β) : OrderedMap α β := m.extend n.entries

/-- Later contributions replace the values of earlier ones. -/
def mergeAll (maps : List (OrderedMap α β)) : OrderedMap α β := maps.foldl merge empty

theorem get?_insert (m : OrderedMap α β) (k a : α) (v : β) :
    (m.insert k v).get? a = if k = a then some v else m.get? a :=
  lookup_put k a v m.entries

theorem keys_insert (m : OrderedMap α β) (k : α) (v : β) :
    (m.insert k v).keys = if k ∈ m.keys then m.keys else m.keys ++ [k] :=
  keys_put k v m.entries

end OrderedMap
end Provision
