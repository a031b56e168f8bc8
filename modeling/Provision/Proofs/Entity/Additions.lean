import Provision.Proofs.Data.Construction
import Provision.Proofs.Entity.Rooted

/-! What an entity graph shows of the additions that led to it.

Entities are added in any order, each below one whose number was given out before, and then the
graph is finished. Every addition leaves an entity that knows its parent, also one whose place is
taken later. What can be reached from the root is a finite tree all the same, and only what is
reached there has a type: the children of `components` and the relations below them. A relation
has its type whether the instance that has the relation has one or not. -/
namespace Provision.EntityGraph

/-! ### Types -/

/-- Types are the children of their namespaces, and instances and relations have the types that
they name. -/
structure TypedByName (g : EntityGraph) : Prop where
  componentType : ∀ name, g.componentType? name = g.descend? root [Key.componentTypes, name]
  relationType : ∀ name, g.relationType? name = g.descend? root [Key.relationTypes, name]
  typeRef : ∀ e t, (g.entity e).typeRef = some t ↔
    (∃ c text, g.descend? root [Key.components, c] = some e ∧
      g.childText? e Key.type = some text ∧ g.componentType? text = some t) ∨
    ∃ c index name, g.descend? root [Key.components, c, Key.relations, index, name] = some e ∧
      g.relationType? name = some t

theorem mem_instances {g : EntityGraph} {i : EntityId} :
    i ∈ g.instances ↔ ∃ c, g.descend? root [Key.components, c] = some i :=
  mem_declared

namespace Builder

variable {b : Builder} {e t : EntityId}

/-- The relations of an instance that have the name of a type. -/
theorem mem_relationRefs_iff {types : OrderedMap String EntityId} {i : EntityId} :
    (e, t) ∈ b.relationRefs types i ↔ ∃ index name,
      b.build.descend? i [Key.relations, index, name] = some e ∧ types.get? name = some t := by
  rw [relationRefs]
  cases hrelations : b.child? i Key.relations with
  | none => simp [descend?, child?_build, hrelations]
  | some relations =>
    simp only [descend?, child?_build, hrelations, Option.bind_some, Option.bind_eq_some_iff,
      List.mem_flatMap, List.mem_filterMap, Option.map_eq_some_iff, OrderedMap.mem_values,
      ← OrderedMap.get?_eq_some, Prod.exists]
    constructor
    · rintro ⟨entry, ⟨index, hentry⟩, name, r, hr, _, ht, heq⟩
      cases heq
      exact ⟨index, name, ⟨entry, hentry, e, hr, rfl⟩, ht⟩
    · rintro ⟨index, name, ⟨entry, hentry, r, hr, heq⟩, ht⟩
      cases heq
      exact ⟨entry, ⟨index, hentry⟩, name, e, hr, t, ht, rfl⟩

/-- An entity is given a type as an instance that has one or as a relation that has one. -/
theorem mem_typeRefs : (e, t) ∈ b.typeRefs ↔
    (∃ c text, b.build.descend? root [Key.components, c] = some e ∧
      b.build.childText? e Key.type = some text ∧ b.build.componentType? text = some t) ∨
    ∃ c index name,
      b.build.descend? root [Key.components, c, Key.relations, index, name] = some e ∧
        b.build.relationType? name = some t := by
  have hinstance (i : EntityId) : (e, t) ∈ b.instanceRef (b.namespaceIndex Key.componentTypes) i ↔
      e = i ∧ ∃ text, b.build.childText? e Key.type = some text ∧
        b.build.componentType? text = some t := by
    rw [mem_instanceRef]
    refine and_congr_right fun hei => ?_
    subst hei
    rw [childText?, childValue?_build]
    simp only [Option.map_eq_some_iff, exists_exists_and_eq_and]
    rfl
  have hrelation (c index name : String) :
      b.build.descend? root [Key.components, c, Key.relations, index, name] = some e ↔
        ∃ i, b.build.descend? root [Key.components, c] = some i ∧
          b.build.descend? i [Key.relations, index, name] = some e := by
    rw [← Option.bind_eq_some_iff, ← descend?_append]
    rfl
  rw [typeRefs, List.mem_flatMap, ← instances_build]
  simp only [List.mem_append, hinstance, mem_relationRefs_iff, hrelation, mem_instances]
  constructor
  · rintro ⟨i, ⟨c, hc⟩, ⟨rfl, text, htext, ht⟩ | ⟨index, name, hr, ht⟩⟩
    · exact .inl ⟨c, text, hc, htext, ht⟩
    · exact .inr ⟨c, index, name, ⟨i, hc, hr⟩, ht⟩
  · rintro (⟨c, text, hc, htext, ht⟩ | ⟨c, index, name, ⟨i, hc, hr⟩, ht⟩)
    · exact ⟨e, ⟨c, hc⟩, .inl ⟨rfl, text, htext, ht⟩⟩
    · exact ⟨i, ⟨c, hc⟩, .inr ⟨index, name, hr, ht⟩⟩

/-- The names that lead to an entity tell its type. -/
theorem typeRefs_functional (htree : IsTree b.build.entity) {t' : EntityId}
    (h : (e, t) ∈ b.typeRefs) (h' : (e, t') ∈ b.typeRefs) : t = t' := by
  rcases mem_typeRefs.mp h with ⟨c, text, hc, htext, ht⟩ | ⟨c, index, name, hr, ht⟩ <;>
    rcases mem_typeRefs.mp h' with ⟨c', text', hc', htext', ht'⟩ | ⟨c', index', name', hr', ht'⟩
  · cases htext.symm.trans htext'
    exact Option.some.inj (ht.symm.trans ht')
  · cases htree.path_unique hc hr'
  · cases htree.path_unique hr hc'
  · cases htree.path_unique hr hr'
    exact Option.some.inj (ht.symm.trans ht')

theorem Grown.typeRef_build (hb : b.Grown) :
    (b.build.entity e).typeRef = some t ↔ (e, t) ∈ b.typeRefs := by
  have hmem {t : EntityId} (h : (b.build.entity e).typeRef = some t) : (e, t) ∈ b.typeRefs := by
    rcases mem_of_typeRef_foldl h with hmem | hold
    · exact hmem
    · exact absurd ((hb.typeRef e).symm.trans hold) nofun
  refine ⟨hmem, fun h => ?_⟩
  have hlt : e < b.next := by
    rcases mem_typeRefs.mp h with ⟨_, _, hc, _⟩ | ⟨_, _, _, hr, _⟩
    · exact hb.lt_next_of_descend? hb.next_pos hc
    · exact hb.lt_next_of_descend? hb.next_pos hr
  obtain ⟨t', ht'⟩ := Option.isSome_iff_exists.mp (isSome_typeRef_foldl hlt (.inl ⟨t, h⟩))
  rw [typeRefs_functional hb.isTree_build h (hmem ht')]
  exact ht'

theorem Grown.typedByName_build (hb : b.Grown) : b.build.TypedByName where
  componentType name := b.find?_build_eq .component name
  relationType name := b.find?_build_eq .relation name
  typeRef _ _ := hb.typeRef_build.trans mem_typeRefs

/-! ### Additions -/

/-- An entity that is to be added below another. -/
structure Addition where
  parent : EntityId
  name : String
  value : Option Scalar := none

/-- Graphs are built by additions below what is there. -/
def construction : Construction Builder Addition where
  start := .start
  known := [root]
  call b a := (some (b.add a.parent a.name a.value).1, (b.add a.parent a.name a.value).2)
  refersTo a := [a.parent]

/-- What was added below an entity, in the order of the additions. -/
def addedBelow (additions : List Addition) (p : EntityId) : List (String × EntityId) :=
  ((additions.zipIdx 1).filter fun (a, _) => a.parent == p).map fun (a, id) => (a.name, id)

/-- Every addition has left an entity, and an entity has what was added below it as children. A
child that was added under the name of another one has taken its place. -/
structure Records (e : EntityId → Entity) (additions : List Addition) : Prop where
  root : (e root).parent = none
  entity : ∀ n a, additions[n]? = some a →
    (e (n + 1)).name = a.name ∧ (e (n + 1)).parent = some a.parent ∧ (e (n + 1)).value = a.value
  children : ∀ p, (e p).children = .ofList (addedBelow additions p)

theorem addedBelow_concat (additions : List Addition) (a : Addition) (p : EntityId) :
    addedBelow (additions ++ [a]) p = addedBelow additions p ++
      if a.parent = p then [(a.name, additions.length + 1)] else [] := by
  rw [addedBelow, List.zipIdx_append, List.filter_append, List.map_append]
  refine congrArg (addedBelow additions p ++ ·) ?_
  by_cases ha : a.parent = p <;> simp [ha, Nat.add_comm]

theorem Records.add {b : Builder} {additions : List Addition} (h : Records b.entity additions)
    (hnext : b.next = additions.length + 1) {a : Addition} (ha : a.parent < b.next) :
    Records (b.add a.parent a.name a.value).2.entity (additions ++ [a]) where
  root := by
    have hroot : EntityGraph.root ≠ b.next := by
      rw [hnext]
      exact nofun
    obtain ⟨_, hsame⟩ := exists_children_add ha a.name a.value hroot
    rw [hsame]
    exact h.root
  entity n a' ha' := by
    rcases Nat.lt_trichotomy n additions.length with hn | rfl | hn
    · have hold : n + 1 ≠ b.next := by
        rw [hnext]
        exact Nat.ne_of_lt (Nat.succ_lt_succ hn)
      obtain ⟨_, hsame⟩ := exists_children_add ha a.name a.value hold
      rw [List.getElem?_append_left hn] at ha'
      rw [hsame]
      exact h.entity n a' ha'
    · rw [List.getElem?_concat_length] at ha'
      cases ha'
      rw [entity_add ha, if_pos hnext.symm]
      exact ⟨rfl, rfl, rfl⟩
    · rw [List.getElem?_eq_none (by simp; omega)] at ha'
      cases ha'
  children p := by
    rw [entity_add ha, addedBelow_concat]
    by_cases hp : p = b.next
    · -- Nothing is below what is new.
      have hleaf : (b.entity p).children = .empty := by
        rw [Builder.entity, Array.getElem?_eq_none (Nat.le_of_eq hp.symm)]
        rfl
      rw [if_pos hp, if_neg (by rw [hp]; exact Nat.ne_of_lt ha), List.append_nil, ← h.children,
        hleaf]
    · rw [if_neg hp]
      by_cases hparent : p = a.parent
      · rw [if_pos hparent, if_pos hparent.symm, OrderedMap.ofList_concat, ← hnext, ← h.children,
          hparent]
      · rw [if_neg hparent, if_neg (Ne.symm hparent), List.append_nil, h.children]

theorem Records.build {b : Builder} {additions : List Addition} (h : Records b.entity additions) :
    Records b.build.entity additions where
  root := by
    obtain ⟨_, hroot⟩ := b.exists_entity_build EntityGraph.root
    rw [hroot]
    exact h.root
  entity n a ha := by
    obtain ⟨_, hn⟩ := b.exists_entity_build (n + 1)
    rw [hn]
    exact h.entity n a ha
  children p := by rw [children_build, h.children]

/-- The numbers that are given out are those of the entities. -/
theorem counts_construction : construction.Counts next where
  start _ := List.mem_singleton.trans Nat.lt_one_iff.symm
  call b a id := by
    show _ ∨ id ∈ [b.next] ↔ id < (b.add a.parent a.name a.value).2.next
    rw [List.mem_singleton, next_add, Nat.lt_succ_iff_lt_or_eq]

/-- A builder has grown by some additions. -/
structure GrownBy (b : Builder) (additions : List Addition) : Prop where
  grown : b.Grown
  next : b.next = additions.length + 1
  records : Records b.entity additions

theorem GrownBy.start : Builder.start.GrownBy [] where
  grown := .start
  next := rfl
  records := by
    refine ⟨rfl, fun n a ha => by simp at ha, fun p => ?_⟩
    rcases p with _ | p <;> rfl

theorem GrownBy.add {b : Builder} {additions : List Addition} (h : b.GrownBy additions)
    (a : Addition) (ha : a.parent < b.next) :
    (b.add a.parent a.name a.value).2.GrownBy (additions ++ [a]) where
  grown := .add a.name a.value h.grown ha
  next := by rw [next_add, h.next, List.length_append, List.length_singleton]
  records := h.records.add h.next ha

theorem grownBy_run {additions : List Addition} (h : construction.Admissible additions) :
    (construction.run additions).GrownBy additions :=
  counts_construction.holds_run .start
    (fun _ _ a hgrown ha => hgrown.add a (ha a.parent List.mem_cons_self)) h

/-- **A graph that is built from additions is a tree with the types that its entities name.**
Every addition leaves an entity, with a larger number than its parent; a child is found under its
name below its parent, and what is found below the root is a finite tree. The types are the
children of their namespaces. An instance has the type that the text of its `type` names, and a
relation of any instance the type that has its name; nothing else has a type. -/
theorem additions_built {additions : List Addition} (h : construction.Admissible additions) :
    (construction.run additions).next = additions.length + 1 ∧
      Records (construction.run additions).build.entity additions ∧
      (construction.run additions).build.Rooted ∧
      (construction.run additions).build.TypedByName := by
  have hgrown := grownBy_run h
  exact ⟨hgrown.next, hgrown.records.build, hgrown.grown.rooted_build,
    hgrown.grown.typedByName_build⟩

/-- An instance that takes the place of another one, with a relation to itself. -/
def replacing : List Addition :=
  [⟨root, Key.componentTypes, none⟩, ⟨1, "compute", none⟩, ⟨root, Key.relationTypes, none⟩,
    ⟨3, "depends_on", none⟩, ⟨root, Key.components, none⟩, ⟨5, "app", none⟩,
    ⟨6, Key.type, some (.string "compute")⟩, ⟨5, "app", none⟩,
    ⟨8, Key.type, some (.string "compute")⟩, ⟨8, Key.relations, none⟩, ⟨10, "0", none⟩,
    ⟨11, "depends_on", some (.string "app")⟩]

theorem additions_built_replacing : construction.Admissible replacing ∧
    ((construction.run replacing).build.entity 6).parent = some 5 ∧
    ((construction.run replacing).build.entity 5).children.toList = [("app", 8)] ∧
    ((construction.run replacing).build.entity 8).typeRef = some 2 ∧
    ((construction.run replacing).build.entity 12).typeRef = some 4 := by
  have hadmissible : construction.Admissible replacing := by decide +kernel
  obtain ⟨_, hrecords, _, htyped⟩ := additions_built hadmissible
  refine ⟨hadmissible, (hrecords.entity 5 _ rfl).2.1, ?_, ?_, ?_⟩
  · rw [hrecords.children]
    decide
  · refine (htyped.typeRef 8 2).mpr (.inl ⟨"app", "compute", ?_, ?_, ?_⟩) <;> decide +kernel
  · refine (htyped.typeRef 12 4).mpr (.inr ⟨"app", "0", "depends_on", ?_, ?_⟩) <;> decide +kernel

/-- A relation of an instance without a type. -/
def untyped : List Addition :=
  [⟨root, Key.relationTypes, none⟩, ⟨1, "depends_on", none⟩, ⟨root, Key.components, none⟩,
    ⟨3, "app", none⟩, ⟨4, Key.relations, none⟩, ⟨5, "0", none⟩,
    ⟨6, "depends_on", some (.string "db")⟩]

/-- It is not only the relations of instances with a type that have a type. -/
theorem untyped_relation_typed : ¬ ∀ additions g, construction.Admissible additions →
    (construction.run additions).build = g → ∀ e t, (g.entity e).typeRef = some t ↔
      (∃ c text, g.descend? root [Key.components, c] = some e ∧
        g.childText? e Key.type = some text ∧ g.componentType? text = some t) ∨
      ∃ c i, g.descend? root [Key.components, c] = some i ∧
        (∃ text t', g.childText? i Key.type = some text ∧ g.componentType? text = some t') ∧
        ∃ index name, g.descend? i [Key.relations, index, name] = some e ∧
          g.relationType? name = some t := by
  intro h
  have hnone (text : String) : (construction.run untyped).build.componentType? text = none :=
    OrderedMap.get?_of_toList_eq_nil (by decide +kernel) text
  have htyped : ((construction.run untyped).build.entity 7).typeRef = some 2 := by decide +kernel
  rcases (h untyped _ (by decide +kernel) rfl 7 2).mp htyped with
    ⟨_, text, _, _, ht⟩ | ⟨_, _, _, ⟨text, _, _, ht⟩, _⟩
  · cases (hnone text).symm.trans ht
  · cases (hnone text).symm.trans ht

end Builder
end Provision.EntityGraph
