import Provision.Proofs.Entity.Alike

/-! Entities of two readings that are found under the same names.

Names lead from the root of a graph to an entity, and never in two ways to the same one. So
what is found under some names in one reading of a document corresponds to exactly one entity
of the other reading, and lists and types of entities correspond as well. -/
namespace Provision.EntityGraph

/-! ### Names from the root -/

/-- Two entities are reached from the roots by the same names. -/
inductive Found (e e' : EntityId → Entity) : Role → EntityId → EntityId → Prop where
  | root : Found e e' .document root root
  | child {role : Role} {i i' c c' : EntityId} {name : String} : Found e e' role i i' →
      (e i).children.get? name = some c → (e' i').children.get? name = some c' →
      Found e e' (role.child name) c c'

/-- Children know their name and their parent, and come after it. -/
def IsTree (e : EntityId → Entity) : Prop :=
  ∀ p c name, (name, c) ∈ (e p).children.toList →
    p < c ∧ (e c).name = name ∧ (e c).parent = some p

section Found
variable {e e' e₁ e₁' : EntityId → Entity} {role : Role} {i i' : EntityId}

theorem Found.symm (h : Found e e' role i i') : Found e' e role i' i := by
  induction h with
  | root => exact .root
  | child _ hc hc' ih => exact .child ih hc' hc

theorem Found.congr (h : Found e e' role i i') (he : ∀ j, (e₁ j).children = (e j).children)
    (he' : ∀ j, (e₁' j).children = (e' j).children) : Found e₁ e₁' role i i' := by
  induction h with
  | root => exact .root
  | child _ hc hc' ih => exact .child ih (by rw [he, hc]) (by rw [he', hc'])

/-- An entity is found for one only. -/
theorem Found.functional {role' : Role} {j' : EntityId} (he : IsTree e)
    (h : Found e e' role i i') (h' : Found e e' role' i j') : i' = j' := by
  -- The name and the parent of an entity say how it was reached last, so both ways end alike.
  induction h generalizing role' j' with
  | root =>
    cases h' with
    | root => rfl
    | child _ hc => exact absurd (he _ _ _ (OrderedMap.get?_eq_some.mp hc)).1 (Nat.not_lt_zero _)
  | child _ hc hc' ih =>
    obtain ⟨hlt, hname, hparent⟩ := he _ _ _ (OrderedMap.get?_eq_some.mp hc)
    cases h' with
    | root => exact absurd hlt (Nat.not_lt_zero _)
    | child hj hd hd' =>
      obtain ⟨_, hname', hparent'⟩ := he _ _ _ (OrderedMap.get?_eq_some.mp hd)
      cases hname.symm.trans hname'
      cases hparent.symm.trans hparent'
      cases ih hj
      exact Option.some.inj (hc'.symm.trans hd')

theorem biUnique_found (he : IsTree e) (he' : IsTree e') :
    Relator.BiUnique fun i i' => ∃ role, Found e e' role i i' := by
  constructor
  · rintro i i' j ⟨_, h⟩ ⟨_, h'⟩
    exact h.symm.functional he' h'.symm
  · rintro i i' j' ⟨_, h⟩ ⟨_, h'⟩
    exact h.functional he h'

variable (hroot : Match (Alike e e') e e' .document EntityGraph.root EntityGraph.root)
include hroot

/-- What is found under the same names is alike. -/
theorem Found.alike (h : Found e e' role i i') : Alike e e' role i i' := by
  induction h with
  | root => exact hroot.alike
  | child _ hc hc' ih =>
    cases ih with
    | same _ _ _ hchildren => exact hchildren _ _ _ hc hc'
    | long _ _ hleaf =>
      rw [OrderedMap.get?_of_toList_eq_nil hleaf.2] at hc
      cases hc

theorem Found.matches (h : Found e e' role i i') (hrole : role.longForms = []) :
    Match (Found e e') e e' role i i' := by
  obtain ⟨hname, hvalue, hchildren⟩ := (h.alike hroot).matches hrole
  exact ⟨hname, hvalue, hchildren.imp fun _ _ _ hc hc' _ => .child h hc hc'⟩

theorem Found.rel_child (h : Found e e' role i i') (name : String) (hname : name ∉ role.opening) :
    Option.Rel (Found e e' (role.child name)) ((e i).children.get? name)
      ((e' i').children.get? name) := by
  have hrel := (h.alike hroot).rel_child name hname
  generalize hc : (e i).children.get? name = c, hc' : (e' i').children.get? name = c' at hrel ⊢
  cases hrel with
  | none => exact .none
  | some => exact .some (.child h hc hc')

end Found

/-! ### Types -/

namespace Builder

theorem Grown.isTree {b : Builder} (h : b.Grown) : IsTree b.entity := fun _ _ _ hc =>
  have hchild := h.child hc
  ⟨hchild.1, hchild.2.2⟩

theorem Grown.lt_next {b : Builder} {e' : EntityId → Entity} {role : Role} {i i' : EntityId}
    (hb : b.Grown) (h : Found b.entity e' role i i') : i < b.next := by
  cases h with
  | root => exact hb.next_pos
  | child _ hc => exact (hb.child (OrderedMap.get?_eq_some.mp hc)).2.1

/-- Nothing has a type before a graph is finished. -/
theorem Grown.typeRef {b : Builder} (h : b.Grown) (i : EntityId) : (b.entity i).typeRef = none := by
  induction h generalizing i with
  | start => rcases i with _ | i <;> rfl
  | add name value _ hparent ih =>
    rw [entity_add hparent]
    split
    · rfl
    · split
      · exact ih _
      · exact ih i

section Finishing
variable {b b' : Builder} (hroot : b.Matches b' .document root root)
include hroot

/-- The children of a child of the root. -/
theorem rel_namespaceIndex (name : String) :
    OrderedMap.Rel (fun key => Found b.entity b'.entity ((Role.document.child name).child key))
      (b.namespaceIndex name) (b'.namespaceIndex name) := by
  have hfound := Found.rel_child hroot .root name List.not_mem_nil
  unfold namespaceIndex child?
  generalize (b.entity root).children.get? name = c, (b'.entity root).children.get? name = c'
    at hfound ⊢
  cases hfound with
  | none => exact .empty
  | some hc => exact (hc.matches hroot (longForms_child_document name)).children

/-- An entity and a type that it may refer to. -/
def RefsAlike (b b' : Builder) (ref ref' : EntityId × EntityId) : Prop :=
  (∃ role, Found b.entity b'.entity role ref.1 ref'.1) ∧
    Found b.entity b'.entity .type ref.2 ref'.2

section Refs
variable {types types' : OrderedMap String EntityId}
  (htypes : OrderedMap.Rel (fun _ => Found b.entity b'.entity .type) types types')
include htypes

theorem rel_instanceRef {i i' : EntityId} (h : Found b.entity b'.entity .component i i') :
    List.Forall₂ (RefsAlike b b') (b.instanceRef types i) (b'.instanceRef types' i') := by
  have hvalue := bind_value_eq ((h.alike hroot).rel_child Key.type List.not_mem_nil) (by decide)
  unfold instanceRef child?
  rw [hvalue]
  cases ((b'.entity i').children.get? Key.type).bind fun c => (b'.entity c).value with
  | none => exact .nil
  | some name =>
    rw [Option.toList_some, List.flatMap_singleton, List.flatMap_singleton]
    have hget := htypes.get? name.text
    generalize types.get? name.text = t, types'.get? name.text = t' at hget ⊢
    cases hget with
    | none => exact .nil
    | some ht => exact .cons ⟨⟨_, h⟩, ht⟩ .nil

theorem rel_relationRefs {i i' : EntityId} (h : Found b.entity b'.entity .component i i') :
    List.Forall₂ (RefsAlike b b') (b.relationRefs types i) (b'.relationRefs types' i') := by
  have hchild := h.rel_child hroot Key.relations List.not_mem_nil
  unfold relationRefs child?
  generalize (b.entity i).children.get? Key.relations = c,
    (b'.entity i').children.get? Key.relations = c' at hchild ⊢
  cases hchild with
  | none => exact .nil
  | some hrelations =>
    have hentries := (hrelations.matches hroot (by decide)).children.forall₂_values
      (q := Found b.entity b'.entity .entry) fun _ _ _ => id
    refine List.rel_flatMap hentries fun entry entry' hentry => ?_
    have hfields := (hentry.matches hroot (by decide)).children.forall₂_toList
    refine List.rel_filterMap ?_ hfields
    rintro ⟨name, relation⟩ ⟨_, relation'⟩ ⟨rfl, hrelation⟩
    have hget := htypes.get? name
    show Option.Rel _ ((types.get? name).map _) ((types'.get? name).map _)
    generalize types.get? name = t, types'.get? name = t' at hget ⊢
    cases hget with
    | none => exact .none
    | some ht => exact .some ⟨⟨_, hrelation⟩, ht⟩

end Refs

theorem rel_typeRefs : List.Forall₂ (RefsAlike b b') b.typeRefs b'.typeRefs := by
  have hinstances := (rel_namespaceIndex hroot Key.components).forall₂_values
    (q := Found b.entity b'.entity .component) fun _ _ _ => id
  refine List.rel_flatMap hinstances fun i i' h => List.rel_append ?_ ?_
  · exact rel_instanceRef hroot (rel_namespaceIndex hroot Key.componentTypes) h
  · exact rel_relationRefs hroot (rel_namespaceIndex hroot Key.relationTypes) h

end Finishing

theorem typeRef_assign {entities : Array Entity} (ref : EntityId × EntityId) {i : EntityId}
    (hi : i < entities.size) : ((assign entities ref)[i]?.getD default).typeRef =
      if i = ref.1 then some ref.2 else (entities[i]?.getD default).typeRef := by
  rw [assign, Array.getElem?_modify, Array.getElem?_eq_getElem hi]
  by_cases h : i = ref.1
  · simp [h]
  · simp [h, Ne.symm h]

/-- What is found under the same names gets types that are. -/
theorem rel_foldl_assign {b b' : Builder} (hb : b.Grown) (hb' : b'.Grown) {role : Role}
    {i i' : EntityId} (h : Found b.entity b'.entity role i i')
    {refs refs' : List (EntityId × EntityId)} (hrefs : List.Forall₂ (RefsAlike b b') refs refs')
    {entities entities' : Array Entity} (hi : i < entities.size) (hi' : i' < entities'.size)
    (htype : Option.Rel (Found b.entity b'.entity .type) (entities[i]?.getD default).typeRef
      (entities'[i']?.getD default).typeRef) :
    Option.Rel (Found b.entity b'.entity .type)
      ((refs.foldl assign entities)[i]?.getD default).typeRef
      ((refs'.foldl assign entities')[i']?.getD default).typeRef := by
  induction hrefs generalizing entities entities' with
  | nil => exact htype
  | @cons ref ref' _ _ href _ ih =>
    obtain ⟨hfound, htarget⟩ := href
    -- A reference is meant for an entity in both readings or in none.
    have hiff : i = ref.1 ↔ i' = ref'.1 :=
      Relator.rel_eq (biUnique_found hb.isTree hb'.isTree) ⟨role, h⟩ hfound
    refine ih (by rwa [assign, Array.size_modify]) (by rwa [assign, Array.size_modify]) ?_
    rw [typeRef_assign ref hi, typeRef_assign ref' hi']
    by_cases hsame : i = ref.1
    · rw [if_pos hsame, if_pos (hiff.mp hsame)]
      exact .some htarget
    · rw [if_neg hsame, if_neg (mt hiff.mpr hsame)]
      exact htype

end Builder

/-! ### Graphs -/

/-- What two readings of a document have in common. -/
structure Twins (g g' : EntityGraph) : Prop where
  tree : IsTree g.entity
  tree' : IsTree g'.entity
  top : Match (Alike g.entity g'.entity) g.entity g'.entity .document root root
  componentTypes : OrderedMap.Rel (fun _ => Found g.entity g'.entity .type) g.componentTypes
    g'.componentTypes
  relationTypes : OrderedMap.Rel (fun _ => Found g.entity g'.entity .type) g.relationTypes
    g'.relationTypes
  typeRef : ∀ {role i i'}, Found g.entity g'.entity role i i' →
    Option.Rel (Found g.entity g'.entity .type) (g.entity i).typeRef (g'.entity i').typeRef

namespace Builder

theorem children_build (b : Builder) (i : EntityId) :
    (b.build.entity i).children = (b.entity i).children := by
  obtain ⟨_, h⟩ := b.exists_entity_build i
  rw [h]

theorem untouched_build (b : Builder) : Untouched b.entity b.build.entity fun _ => True where
  same i _ := b.exists_entity_build i
  closed _ _ _ _ _ := trivial

theorem Grown.isTree_build {b : Builder} (hb : b.Grown) : IsTree b.build.entity := by
  intro p c name hc
  rw [children_build] at hc
  obtain ⟨_, h⟩ := b.exists_entity_build c
  rw [h]
  exact hb.isTree p c name hc

theorem found_build {b b' : Builder} {role : Role} {i i' : EntityId} :
    Found b.build.entity b'.build.entity role i i' ↔ Found b.entity b'.entity role i i' :=
  ⟨fun h => h.congr (fun j => (b.children_build j).symm) fun j => (b'.children_build j).symm,
    fun h => h.congr b.children_build b'.children_build⟩

/-- Finished graphs of entities that match are twins. -/
theorem twins_build {b b' : Builder} (hb : b.Grown) (hb' : b'.Grown)
    (hroot : b.Matches b' .document root root) : b.build.Twins b'.build where
  tree := hb.isTree_build
  tree' := hb'.isTree_build
  top := (hroot.alike.of_untouched b.untouched_build b'.untouched_build trivial
    trivial).matches rfl
  componentTypes := (rel_namespaceIndex hroot Key.componentTypes).imp
    fun _ _ _ _ _ h => found_build.mpr h
  relationTypes := (rel_namespaceIndex hroot Key.relationTypes).imp
    fun _ _ _ _ _ h => found_build.mpr h
  typeRef {_ i i'} h := by
    have h := found_build.mp h
    have hnone : Option.Rel (Found b.entity b'.entity .type) (b.entity i).typeRef
        (b'.entity i').typeRef := by
      rw [hb.typeRef, hb'.typeRef]
      exact .none
    have hrel := rel_foldl_assign hb hb' h (rel_typeRefs hroot) (hb.lt_next h)
      (hb'.lt_next h.symm) hnone
    have heq : Found b.build.entity b'.build.entity .type = Found b.entity b'.entity .type := by
      funext i i'
      exact propext found_build
    rw [heq]
    exact hrel

end Builder

/-- **Both readings of a document fail, for the same cause, or give twins.** -/
theorem agree_ofValue {v v' : Yaml.Value} (h : Lengthens .document v v') (builtIn : Bool) :
    Agree Twins (ofValue builtIn v) (ofValue builtIn v') := by
  refine (agree_read h builtIn).imp fun g g' _ _ h => ?_
  obtain ⟨b, b', hb, hb', rfl, rfl, hroot⟩ := h
  exact Builder.twins_build hb hb' hroot

end Provision.EntityGraph
