import Provision.Proofs.Entity.Types
import Provision.Proofs.Yaml.Parts

/-! What becomes of the parts of a document.

Every part of a value that is added gets an entity that depicts it, also a part whose name is
given again: its entity stays behind, with all that is below it. What is reached by names is the
last part that has them. The top of a document is a value as well, once the types that it
declares have joined those that are there. -/
namespace Provision.EntityGraph
open Yaml (Value)

/-! ### Paths -/

theorem Shows.rel_child {e : EntityId → Entity} {i : EntityId} {fields : List (String × Value)}
    (h : Shows e i fields) (name : String) : Option.Rel (Depicts e)
      ((e i).children.get? name) (OrderedMap.lookup name fields.reverse) := by
  rw [← OrderedMap.get?_ofList]
  exact OrderedMap.Rel.get? h name

theorem descend?_append (g : EntityGraph) (i : EntityId) (path path' : List String) :
    g.descend? i (path ++ path') = (g.descend? i path).bind fun c => g.descend? c path' := by
  induction path generalizing i with
  | nil => rfl
  | cons name path ih =>
    rw [List.cons_append, descend?, descend?]
    cases g.child? i name with
    | none => rfl
    | some c => exact ih c

/-- Names lead to the same part in a graph and in the value that it depicts. -/
theorem Depicts.descend? {g : EntityGraph} {i : EntityId} {v : Value} (h : Depicts g.entity i v)
    (path : List String) :
    Option.Rel (Depicts g.entity) (g.descend? i path) (v.under? path) := by
  induction path generalizing i v with
  | nil => exact .some h
  | cons name path ih =>
    have hchild := h.shows.rel_child name
    rw [EntityGraph.descend?, child?, Value.under?]
    generalize (g.entity i).children.get? name = c at hchild ⊢
    generalize OrderedMap.lookup name v.fields.reverse = u at hchild ⊢
    cases hchild with
    | none => exact .none
    | some hcu => exact ih hcu

theorem Depicts.untagged {e : EntityId → Entity} {i : EntityId} {v : Value} (h : Depicts e i v) :
    Depicts e i v.untagged := by
  induction v using Builder.leafValue.induct with
  | case1 tag v ih =>
    cases h with
    | tagged h => exact ih h
    | leaf hv hvalue hchildren => exact ih (.leaf hv hvalue hchildren)
  | case2 v htag =>
    cases v with
    | tagged tag v => exact absurd rfl (htag tag v)
    | _ => exact h

namespace Builder

/-! ### Parts of a value -/

/-- An entity that is added for a part of a value. It stands below the entity to which the value
is added, if it is the one of the value, else below one that is added as well. -/
structure Placed (b b' : Builder) (parent : EntityId) (name : String) (w : Value) (i : EntityId) :
    Prop where
  new : b.next ≤ i ∧ i < b'.next
  depicts : Depicts b'.entity i w
  above : (b'.entity i).parent = some parent ∧ (b'.entity i).name = name ∨
    ∃ p, (b'.entity i).parent = some p ∧ b.next ≤ p

section Placed
variable {b b₁ b' : Builder} {parent i : EntityId} {name : String} {w : Value}

/-- What is added elsewhere leaves the entity. -/
theorem Placed.of_extends {children : OrderedMap String EntityId} (h : b.Placed b₁ parent name w i)
    (hb : b₁.Grown) (hparent : parent < b.next) (hx : b₁.Extends parent children b') :
    b.Placed b' parent name w i := by
  have hsame := hx.rest i h.new.2 (Nat.ne_of_gt (Nat.lt_of_lt_of_le hparent h.new.1))
  refine ⟨⟨h.new.1, Nat.lt_of_lt_of_le h.new.2 hx.grows.2⟩, ?_, by rw [hsame]; exact h.above⟩
  exact h.depicts.of_untouched (hx.untouched hb)
    ⟨Nat.lt_of_lt_of_le hparent h.new.1, h.new.2⟩

/-- What is added later is new as well. -/
theorem Placed.of_le (h : b₁.Placed b' parent name w i) (hle : b.next ≤ b₁.next) :
    b.Placed b' parent name w i :=
  ⟨⟨Nat.le_trans hle h.new.1, h.new.2⟩, h.depicts,
    h.above.imp_right fun ⟨p, hp, hnew⟩ => ⟨p, hp, Nat.le_trans hle hnew⟩⟩

/-- What is added below a new entity is not added below the entity that this one is below. -/
theorem Placed.below {other : String} (h : b₁.Placed b' b.next other w i) (hle : b.next ≤ b₁.next) :
    b.Placed b' parent name w i := by
  refine ⟨⟨Nat.le_trans hle h.new.1, h.new.2⟩, h.depicts, .inr ?_⟩
  rcases h.above with ⟨hp, _⟩ | ⟨p, hp, hnew⟩
  · exact ⟨b.next, hp, Nat.le_refl _⟩
  · exact ⟨p, hp, Nat.le_trans hle hnew⟩

theorem placed_addValue {v : Value} (h : addValue parent name v b = .ok b') (hb : b.Grown)
    (hparent : parent < b.next) : b.Placed b' parent name v b.next := by
  have hx := extends_addValue v h hb hparent
  have hchild : (name, b.next) ∈ (b'.entity parent).children.toList := by
    rw [hx.above]
    exact OrderedMap.mem_insert.mpr (.inl ⟨rfl, rfl⟩)
  obtain ⟨_, hlt, hname, habove⟩ := hx.grows.1.child hchild
  exact ⟨⟨Nat.le_refl _, hlt⟩, depicts_addValue v h hb hparent, .inl ⟨habove, hname⟩⟩

end Placed

/-- Every part of a value has got an entity. -/
def Places (b b' : Builder) (parent : EntityId) (name : String) (v : Value) : Prop :=
  ∀ path w, v.At path w → ∃ i, b.Placed b' parent name w i

section Places
variable {b b₁ b' : Builder} {parent : EntityId} {name : String} {v : Value}

theorem Places.of_extends {children : OrderedMap String EntityId} (h : b.Places b₁ parent name v)
    (hb : b₁.Grown) (hparent : parent < b.next) (hx : b₁.Extends parent children b') :
    b.Places b' parent name v := fun path w hw =>
  have ⟨i, hi⟩ := h path w hw
  ⟨i, hi.of_extends hb hparent hx⟩

theorem Places.of_le (h : b₁.Places b' parent name v) (hle : b.next ≤ b₁.next) :
    b.Places b' parent name v := fun path w hw =>
  have ⟨i, hi⟩ := h path w hw
  ⟨i, hi.of_le hle⟩

/-- The parts of a value are the value and the parts of its fields. -/
theorem places_of_fields (h : addValue parent name v b = .ok b') (hb : b.Grown)
    (hparent : parent < b.next) (hle : b.next ≤ b₁.next)
    (hfields : ∀ field ∈ v.fields, b₁.Places b' b.next field.1 field.2) :
    b.Places b' parent name v := by
  intro path w hw
  cases hw with
  | here => exact ⟨b.next, placed_addValue h hb hparent⟩
  | field hu hw =>
    obtain ⟨i, hi⟩ := hfields _ hu _ w hw
    exact ⟨i, hi.below hle⟩

end Places

mutual

/-- Every part of a value that is added gets an entity. -/
theorem places_addValue {parent : EntityId} {name : String} : (v : Value) → {b b' : Builder} →
    addValue parent name v b = .ok b' → b.Grown → parent < b.next → b.Places b' parent name v
  | .mapping entries, b, b', h, hb, hparent => by
    have hadd := hb.grows_add hparent name none
    refine places_of_fields h hb hparent hadd.2 ?_
    rw [addValue] at h
    exact places_addEntries entries h hadd.1 (b.lt_next_add parent name none)
  | .sequence items, b, b', h, hb, hparent => by
    have hadd := hb.grows_add hparent name none
    refine places_of_fields h hb hparent hadd.2 ?_
    rw [addValue] at h
    exact places_addItems items h hadd.1 (b.lt_next_add parent name none)
  | .tagged tag v, b, b', h, hb, hparent => by
    intro path w hw
    cases hw with
    | here => exact ⟨b.next, placed_addValue h hb hparent⟩
    | field hu hw =>
      rw [addValue] at h
      exact places_addValue v h hb hparent _ w (.field hu hw)
  | .null, b, b', h, hb, hparent | .boolean _, b, b', h, hb, hparent
  | .integer _, b, b', h, hb, hparent | .float _, b, b', h, hb, hparent
  | .string _, b, b', h, hb, hparent =>
    places_of_fields h hb hparent (Nat.le_refl b.next) fun _ hfield => by cases hfield

theorem places_addEntries {i : EntityId} : (entries : List (Value × Value)) → {b b' : Builder} →
    addEntries i entries b = .ok b' → b.Grown → i < b.next →
    ∀ field ∈ Value.named entries, b.Places b' i field.1 field.2
  | [], b, b', h, hb, hi => fun _ hfield => by cases hfield
  | (k, v) :: rest, b, b', h, hb, hi => by
    rw [addEntries] at h
    obtain ⟨name, hname, h⟩ := bind_eq_ok.mp h
    obtain ⟨b₁, hv, h⟩ := bind_eq_ok.mp h
    have hx := extends_addValue v hv hb hi
    have hi₁ := Nat.lt_of_lt_of_le hi hx.grows.2
    obtain ⟨_, hrest⟩ := extends_addEntries rest h hx.grows.1 hi₁
    rw [Value.named_cons (text?_of_keyName hname)]
    refine List.forall_mem_cons.mpr ⟨?_, fun field hfield => ?_⟩
    · exact (places_addValue v hv hb hi).of_extends hx.grows.1 hi hrest
    · exact (places_addEntries rest h hx.grows.1 hi₁ field hfield).of_le hx.grows.2

theorem places_addItems {i : EntityId} : {index : Nat} → (items : List Value) →
    {b b' : Builder} → addItems i index items b = .ok b' → b.Grown → i < b.next →
    ∀ field ∈ Value.numbered index items, b.Places b' i field.1 field.2
  | index, [], b, b', h, hb, hi => fun _ hfield => by cases hfield
  | index, v :: rest, b, b', h, hb, hi => by
    rw [addItems] at h
    obtain ⟨b₁, hv, h⟩ := bind_eq_ok.mp h
    have hx := extends_addValue v hv hb hi
    have hi₁ := Nat.lt_of_lt_of_le hi hx.grows.2
    obtain ⟨_, hrest⟩ := extends_addItems rest h hx.grows.1 hi₁
    rw [Value.numbered_cons]
    refine List.forall_mem_cons.mpr ⟨?_, fun field hfield => ?_⟩
    · exact (places_addValue v hv hb hi).of_extends hx.grows.1 hi hrest
    · exact (places_addItems rest h hx.grows.1 hi₁ field hfield).of_le hx.grows.2

end

end Builder
end Provision.EntityGraph
