import Provision.Proofs.Entity.Found
import Provision.Proofs.Model.Build

/-! One model from two readings of a document.

What a model takes from a property, an operation or a relation is the same whether its scalar
is written in short or in long form. Everything else is read along names and types, which lead
to corresponding entities. -/
namespace Provision
open EntityGraph

variable {g g' : EntityGraph} {role : Role} {i i' : EntityId} {name : String}

namespace EntityGraph

theorem childValue?_eq_of_match (h : Match (Alike g.entity g'.entity) g.entity g'.entity role i i')
    (hrole : (role.child name).longForms = []) : g.childValue? i name = g'.childValue? i' name :=
  bind_value_eq (h.children.get? name) hrole

theorem childValue?_eq_of_alike (h : Alike g.entity g'.entity role i i')
    (hname : name ∉ role.opening) (hrole : (role.child name).longForms = []) :
    g.childValue? i name = g'.childValue? i' name :=
  bind_value_eq (h.rel_child name hname) hrole

/-- What two entities declare below children of one name. -/
theorem forall₂_declared {r : Role → EntityId → EntityId → Prop} (role' : Role)
    (h : Option.Rel (r role) (g.child? i name) (g'.child? i' name))
    (hmatch : ∀ c c', r role c c' → Match r g.entity g'.entity role c c')
    (hrole : ∀ key, role.child key = role') :
    List.Forall₂ (r role') (g.declared i name) (g'.declared i' name) := by
  unfold declared
  generalize g.child? i name = c, g'.child? i' name = c' at h ⊢
  cases h with
  | none => exact .nil
  | some hc =>
    refine (hmatch _ _ hc).children.forall₂_values fun key _ _ hkey => ?_
    rwa [hrole] at hkey

/-! ### Long forms -/

/-- There is nothing below a leaf. -/
theorem child?_eq_none_of_leaf {s : Option Scalar} (h : LeafBelow g.entity i [] s)
    (name : String) : g.child? i name = none :=
  OrderedMap.get?_of_toList_eq_nil h.2 name

theorem childValue?_eq_none_of_leaf {s : Option Scalar} (h : LeafBelow g.entity i [] s)
    (name : String) : g.childValue? i name = none := by
  rw [childValue?, child?_eq_none_of_leaf h]
  rfl

/-- A long form of one level has the value at its name. -/
theorem childValue?_of_leafBelow {key : String} {s : Option Scalar}
    (h : LeafBelow g.entity i [key] s) (name : String) :
    g.childValue? i name = if key = name then s else none := by
  obtain ⟨_, c, hchildren, _, hvalue, _⟩ := h
  rw [childValue?, child?, OrderedMap.get?_of_toList_eq_singleton hchildren]
  split
  · exact hvalue
  · rfl

end EntityGraph

/-! ### Properties and operations -/

theorem Property.ofEntity_eq (h : Alike g.entity g'.entity .property i i') :
    ofEntity g i = ofEntity g' i' := by
  obtain hmatch | ⟨wraps, hwraps, s, hname, hleaf, hlong⟩ := h.match_or_long
  · simp only [ofEntity, childText?, childValue?_eq_of_match hmatch rfl, hmatch.name, hmatch.value]
  · cases List.mem_singleton.mp hwraps
    have hassigned := (childValue?_of_leafBelow hlong Key.value).trans (if_pos rfl)
    have htype := (childValue?_of_leafBelow hlong Key.type).trans (if_neg (by decide))
    have hdefault := (childValue?_of_leafBelow hlong Key.defaultValue).trans (if_neg (by decide))
    have hdescription := (childValue?_of_leafBelow hlong Key.description).trans
      (if_neg (by decide))
    simp only [ofEntity, childText?, hname, hleaf.1, hlong.1, hassigned, htype, hdefault,
      hdescription, childValue?_eq_none_of_leaf hleaf]
    cases s <;> rfl

namespace Operation

/-- The script that a leaf stands for. -/
def ofLeaf (s : Option Scalar) : List Artifact := (s.map fun v => ⟨command, v.text⟩).toList

/-- The artifacts of an operation that has them below. -/
def artifactsBelow (g : EntityGraph) (id : EntityId) : List Artifact :=
  (g.declared id Key.artifacts).flatMap (artifactsOfItem g)

theorem ofEntity_of_value_eq_none (h : (g.entity i).value = none) : ofEntity g i =
    { name := (g.entity i).name, description := g.childText? i Key.description,
      artifacts := artifactsBelow g i } := by
  simp only [ofEntity, h, artifactsBelow, declared]
  cases g.child? i Key.artifacts <;> rfl

theorem ofEntity_of_leaf {s : Option Scalar} (h : LeafBelow g.entity i [] s) :
    ofEntity g i = { name := (g.entity i).name, artifacts := ofLeaf s } := by
  cases s with
  | some v => simp only [ofEntity, h.1, ofLeaf, Option.map_some, Option.toList_some]
  | none =>
    rw [ofEntity_of_value_eq_none h.1, childText?, childValue?_eq_none_of_leaf h, artifactsBelow,
      declared, child?_eq_none_of_leaf h]
    rfl

/-- An item is a script, or a field with its name. -/
theorem artifactsOfItem_of_leafBelow {names : List String} {s : Option Scalar}
    (hnames : names = [] ∨ names = [command]) (h : LeafBelow g.entity i names s) :
    artifactsOfItem g i = ofLeaf s := by
  rcases hnames with rfl | rfl
  · obtain ⟨hvalue, hchildren⟩ := h
    rw [artifactsOfItem, hvalue, children, OrderedMap.values_eq_map, hchildren]
    cases s <;> rfl
  · obtain ⟨hvalue, c, hchildren, hname, hleaf, _⟩ := h
    rw [artifactsOfItem, hvalue, children, OrderedMap.values_eq_map, hchildren]
    simp only [List.map_cons, List.map_nil, List.filterMap_cons, List.filterMap_nil, hleaf, hname]
    cases s <;> rfl

theorem ofEntity_of_leafBelow {names : List String} {s : Option Scalar}
    (hnames : names = [] ∨ names = [command])
    (h : LeafBelow g.entity i (Key.artifacts :: toString 0 :: names) s) :
    ofEntity g i = { name := (g.entity i).name, artifacts := ofLeaf s } := by
  obtain ⟨hvalue, list, hlist, _, _, item, hitem, _, hbelow⟩ := h
  have hchild := OrderedMap.get?_of_toList_eq_singleton hlist
  have hdescription : g.childText? i Key.description = none := by
    rw [childText?, childValue?, child?, hchild, if_neg (by decide)]
    rfl
  have hdeclared : g.declared i Key.artifacts = [item] := by
    rw [declared, child?, hchild, if_pos rfl]
    show g.children list = [item]
    rw [children, OrderedMap.values_eq_map, hitem]
    rfl
  rw [ofEntity_of_value_eq_none hvalue, hdescription, artifactsBelow, hdeclared,
    List.flatMap_singleton, artifactsOfItem_of_leafBelow hnames hbelow]

/-- An item of a list of artifacts has no long form. -/
theorem artifactsOfItem_eq (h : Alike g.entity g'.entity .other i i') :
    artifactsOfItem g i = artifactsOfItem g' i' := by
  obtain ⟨_, hvalue, hchildren⟩ := h.matches rfl
  have hfields := hchildren.forall₂_values (q := Alike g.entity g'.entity .other) fun _ _ _ => id
  unfold artifactsOfItem
  rw [hvalue]
  cases (g'.entity i').value with
  | some v => rfl
  | none =>
    refine filterMap_eq_of_forall₂ hfields fun field field' hfield => ?_
    obtain ⟨hname, hvalue, _⟩ := hfield.matches rfl
    rw [hname, hvalue]

theorem ofEntity_eq (h : Alike g.entity g'.entity .operation i i') :
    ofEntity g i = ofEntity g' i' := by
  obtain hmatch | ⟨wraps, hwraps, s, hname, hleaf, hlong⟩ := h.match_or_long
  · cases hv : (g'.entity i').value with
    | some v => simp only [ofEntity, hmatch.value, hv, hmatch.name]
    | none =>
      have hlist := forall₂_declared .other (hmatch.children.get? Key.artifacts)
        (fun _ _ hc => hc.matches rfl) fun _ => rfl
      rw [ofEntity_of_value_eq_none (hmatch.value.trans hv), ofEntity_of_value_eq_none hv,
        hmatch.name, childText?, childText?, childValue?_eq_of_match hmatch rfl, artifactsBelow,
        artifactsBelow, flatMap_eq_of_forall₂ hlist fun _ _ => artifactsOfItem_eq]
  · have hlong : ofEntity g' i' = { name := (g'.entity i').name, artifacts := ofLeaf s } := by
      rcases List.mem_cons.mp hwraps with rfl | hwraps
      · exact ofEntity_of_leafBelow (.inr rfl) hlong
      · cases List.mem_singleton.mp hwraps
        exact ofEntity_of_leafBelow (.inl rfl) hlong
    rw [ofEntity_of_leaf hleaf, hlong, hname]

end Operation

/-- What declares properties and operations under names of their own. -/
def Role.Declares (role : Role) : Prop :=
  ∀ container ∈ [Key.properties, Key.operations],
    role.child container = Role.declaration container ∧ container ∉ role.opening

instance (role : Role) : Decidable role.Declares :=
  inferInstanceAs (Decidable (∀ container ∈ [Key.properties, Key.operations],
    role.child container = Role.declaration container ∧ container ∉ role.opening))

namespace EntityGraph.Twins

/-! ### Types -/

section Types
variable (h : Twins g g') {t t' : EntityId}
include h

theorem name_eq (hi : Found g.entity g'.entity role i i') :
    (g.entity i).name = (g'.entity i').name :=
  (hi.alike h.top).name

/-- Types of one name are looked up in namespaces of one name. -/
theorem rel_typeLike? (ht : Found g.entity g'.entity .type t t') (name : String) :
    Option.Rel (Found g.entity g'.entity .type) (g.typeLike? t name) (g'.typeLike? t' name) := by
  generalize hrole : Role.type = role at ht
  cases ht with
  | root => cases hrole
  | @child _ p p' _ _ _ hp hc hc' =>
    rw [← hrole]
    unfold typeLike?
    rw [(h.tree _ _ _ (OrderedMap.get?_eq_some.mp hc)).2.2,
      (h.tree' _ _ _ (OrderedMap.get?_eq_some.mp hc')).2.2]
    simp only [h.name_eq hp]
    split
    · exact h.componentTypes.get? name
    · split
      · exact h.relationTypes.get? name
      · exact .none

theorem agree_parentType? (ht : Found g.entity g'.entity .type t t') :
    Agree (Option.Rel (Found g.entity g'.entity .type)) (g.parentType? t) (g'.parentType? t') := by
  have hname : g.parentName? t = g'.parentName? t' := by
    rw [parentName?, parentName?, childText?, childText?,
      childValue?_eq_of_alike (ht.alike h.top) List.not_mem_nil (by decide)]
  unfold parentType?
  rw [hname]
  cases g'.parentName? t' with
  | none => exact .ok .none
  | some name =>
    have hparent := h.rel_typeLike? ht name
    dsimp only
    generalize g.typeLike? t name = p, g'.typeLike? t' name = p' at hparent ⊢
    cases hparent with
    | none =>
      rw [h.name_eq ht]
      exact .error _
    | some hp => exact .ok (.some hp)

theorem agree_chainFrom {start start' : EntityId}
    (hstart : (g.entity start).name = (g'.entity start').name) {visited visited' : List EntityId}
    (hvisited : List.Forall₂ (fun i i' => ∃ role, Found g.entity g'.entity role i i') visited
      visited') (room : Nat) (ht : Found g.entity g'.entity .type t t') :
    Agree (List.Forall₂ (Found g.entity g'.entity .type)) (g.chainFrom start visited room t)
      (g'.chainFrom start' visited' room t') := by
  induction room generalizing t t' visited visited' with
  | zero =>
    have hmem := List.rel_mem (biUnique_found h.tree h.tree') ⟨_, ht⟩ hvisited
    unfold chainFrom
    by_cases hseen : t ∈ visited
    · rw [if_pos hseen, if_pos (hmem.mp hseen)]
      exact .ok .nil
    · rw [if_neg hseen, if_neg (mt hmem.mpr hseen), hstart]
      exact .error _
  | succ room ih =>
    have hmem := List.rel_mem (biUnique_found h.tree h.tree') ⟨_, ht⟩ hvisited
    unfold chainFrom
    by_cases hseen : t ∈ visited
    · rw [if_pos hseen, if_pos (hmem.mp hseen)]
      exact .ok .nil
    · rw [if_neg hseen, if_neg (mt hmem.mpr hseen)]
      refine (h.agree_parentType? ht).bind fun p p' _ _ hp => ?_
      cases hp with
      | none => exact .ok (.cons ht .nil)
      | some hp =>
        refine (ih (.cons ⟨_, ht⟩ hvisited) hp).bind fun rest rest' _ _ hrest => ?_
        exact .ok (.cons ht hrest)

/-- The names with which something declares a type start no long form. -/
theorem agree_chainOf (hi : Found g.entity g'.entity role i i') (htype : Key.type ∉ role.opening)
    (hrole : (role.child Key.type).longForms = []) :
    Agree (List.Forall₂ (Found g.entity g'.entity .type)) (g.chainOf i) (g'.chainOf i') := by
  have hrel := h.typeRef hi
  unfold chainOf
  generalize (g.entity i).typeRef = t, (g'.entity i').typeRef = t' at hrel ⊢
  cases hrel with
  | none =>
    rw [h.name_eq hi, childText?, childText?,
      childValue?_eq_of_alike (hi.alike h.top) htype hrole]
    exact .error _
  | some ht => exact h.agree_chainFrom (h.name_eq ht) .nil chainLimit ht

/-- Kinds are resolved from names. -/
theorem names_eq {types types' : List EntityId}
    (htypes : List.Forall₂ (Found g.entity g'.entity .type) types types') :
    g.names types = g'.names types' :=
  map_eq_of_forall₂ htypes fun _ _ ht => h.name_eq ht

end Types

/-! ### Declarations -/

/-- An entity and its types are owners. -/
theorem forall₂_owners (hi : Found g.entity g'.entity role i i') (hrole : role.Declares)
    {types types' : List EntityId}
    (htypes : List.Forall₂ (Found g.entity g'.entity .type) types types') :
    List.Forall₂ (fun o o' => ∃ role : Role, role.Declares ∧ Found g.entity g'.entity role o o')
      (i :: types) (i' :: types') :=
  .cons ⟨role, hrole, hi⟩ (htypes.imp fun _ _ ht => ⟨.type, by decide, ht⟩)

section Declarations
variable (h : Twins g g')
include h

theorem forall₂_declaredBy {owners owners' : List EntityId} {container : String}
    (howners : List.Forall₂ (fun o o' => ∃ role : Role, role.Declares ∧
      Found g.entity g'.entity role o o') owners owners')
    (hcontainer : container ∈ [Key.properties, Key.operations]) (role' : Role)
    (hplain : (Role.declaration container).longForms = [])
    (hrole : ∀ key, (Role.declaration container).child key = role') :
    List.Forall₂ (Alike g.entity g'.entity role') (g.declaredBy owners container)
      (g'.declaredBy owners' container) := by
  refine List.rel_flatMap howners fun o o' ho => ?_
  obtain ⟨role, hdeclares, ho⟩ := ho
  obtain ⟨hchild, hopening⟩ := hdeclares container hcontainer
  have hrel := (ho.alike h.top).rel_child container hopening
  rw [hchild] at hrel
  exact forall₂_declared role' hrel (fun _ _ hc => hc.matches hplain) hrole

theorem propertiesOf_eq {owners owners' : List EntityId}
    (howners : List.Forall₂ (fun o o' => ∃ role : Role, role.Declares ∧
      Found g.entity g'.entity role o o') owners owners') :
    g.propertiesOf owners = g'.propertiesOf owners' := by
  rw [propertiesOf, propertiesOf, map_eq_of_forall₂ (h.forall₂_declaredBy howners (by decide)
    .property (by decide) fun _ => rfl) fun _ _ => Property.ofEntity_eq]

theorem operationsOf_eq {owners owners' : List EntityId}
    (howners : List.Forall₂ (fun o o' => ∃ role : Role, role.Declares ∧
      Found g.entity g'.entity role o o') owners owners') :
    g.operationsOf owners = g'.operationsOf owners' := by
  rw [operationsOf, operationsOf, map_eq_of_forall₂ (h.forall₂_declaredBy howners (by decide)
    .operation (by decide) fun _ => rfl) fun _ _ => Operation.ofEntity_eq]

end Declarations

/-! ### Relations -/

theorem targetText?_eq (h : Alike g.entity g'.entity .relation i i') :
    g.targetText? i = g'.targetText? i' := by
  obtain hmatch | ⟨wraps, hwraps, s, _, hleaf, hlong⟩ := h.match_or_long
  · rw [targetText?, targetText?, hmatch.value, childText?, childText?,
      childValue?_eq_of_match hmatch (by decide)]
  · cases List.mem_singleton.mp hwraps
    rw [targetText?, targetText?, hleaf.1, hlong.1, childText?, childText?,
      childValue?_eq_none_of_leaf hleaf, childValue?_of_leafBelow hlong]
    exact Option.or_none

section Build
variable (h : Twins g g')
include h

theorem relationOf_eq (hi : Found g.entity g'.entity .relation i i') (source : String) :
    Model.relationOf g source i = Model.relationOf g' source i' := by
  have htarget := targetText?_eq (hi.alike h.top)
  rw [targetText?, targetText?] at htarget
  simp only [Model.relationOf, htarget, h.name_eq hi]
  cases ((g'.entity i').value.map Scalar.text).or (g'.childText? i' Key.target) with
  | none => rfl
  | some target =>
    refine (h.agree_chainOf hi (by decide) (by decide)).bind_eq fun types types' htypes => ?_
    rw [h.names_eq htypes, h.propertiesOf_eq (forall₂_owners hi (by decide) htypes)]

theorem relationsOfEntry_eq (hi : Found g.entity g'.entity .entry i i') (source : String) :
    Model.relationsOfEntry g source i = Model.relationsOfEntry g' source i' := by
  obtain ⟨_, hvalue, hchildren⟩ := hi.matches h.top rfl
  have hrelations : List.Forall₂ (Found g.entity g'.entity .relation) (g.children i)
      (g'.children i') := hchildren.forall₂_values fun _ _ _ => id
  unfold Model.relationsOfEntry
  rw [hvalue]
  generalize g.children i = l, g'.children i' = l' at hrelations ⊢
  cases hrelations with
  | nil => rfl
  | cons hr hrest =>
    exact mapM_eq_of_forall₂ (.cons hr hrest) fun _ _ hr => h.relationOf_eq hr source

theorem relationsOf_eq (hi : Found g.entity g'.entity .component i i') (source : String) :
    Model.relationsOf g source i = Model.relationsOf g' source i' := by
  have hrel : Option.Rel (Found g.entity g'.entity .relations) (g.child? i Key.relations)
      (g'.child? i' Key.relations) := hi.rel_child h.top Key.relations List.not_mem_nil
  unfold Model.relationsOf
  generalize g.child? i Key.relations = c, g'.child? i' Key.relations = c' at hrel ⊢
  cases hrel with
  | none => rfl
  | @some c c' hrelations =>
    have hentries : List.Forall₂ (Found g.entity g'.entity .entry) (g.children c)
        (g'.children c') :=
      (hrelations.matches h.top rfl).children.forall₂_values fun _ _ _ => id
    have heq := mapM_eq_of_forall₂ hentries fun _ _ he => h.relationsOfEntry_eq he source
    simp only [heq]

theorem ofEntity_eq (hi : Found g.entity g'.entity .component i i') :
    Component.ofEntity g i = Component.ofEntity g' i' := by
  refine (h.agree_chainOf hi (by decide) (by decide)).bind_eq fun types types' htypes => ?_
  have howners := forall₂_owners hi (by decide) htypes
  rw [h.names_eq htypes, h.propertiesOf_eq howners, h.operationsOf_eq howners, h.name_eq hi,
    childText?, childText?, childValue?_eq_of_alike (hi.alike h.top) (by decide) (by decide)]

theorem addInstance_eq (hi : Found g.entity g'.entity .component i i')
    (state : Topology × List Model.Pending) :
    Model.addInstance g state i = Model.addInstance g' state i' := by
  simp only [Model.addInstance, h.ofEntity_eq hi, h.relationsOf_eq hi]

/-- **Twins are the same model, or fail to be one for the same cause.** -/
theorem build_eq (name : String) : Model.build name g = Model.build name g' := by
  have hrel : Option.Rel (Found g.entity g'.entity .components)
      (g.child? root Key.components) (g'.child? root Key.components) :=
    Found.rel_child h.top .root Key.components List.not_mem_nil
  have hinstances := forall₂_declared .component hrel (fun _ _ hc => hc.matches h.top rfl)
    fun _ => rfl
  have hdescription : g.childText? root Key.description = g'.childText? root Key.description := by
    rw [childText?, childText?, childValue?_eq_of_match h.top (by decide)]
  have hread := foldlM_eq_of_forall₂ hinstances (fun state _ _ hi => h.addInstance_eq hi state)
    (.empty, [])
  show (g.instances.foldlM (Model.addInstance g) (.empty, []) >>= _) =
    (g'.instances.foldlM (Model.addInstance g') (.empty, []) >>= _)
  rw [instances, instances, hread]
  simp only [hdescription]

end Build

end EntityGraph.Twins

end Provision
