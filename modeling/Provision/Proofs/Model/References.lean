import Provision.Proofs.Entity.Whole
import Provision.Proofs.Model.Kinds
import Provision.Proofs.Number.Whole
import Provision.Proofs.Number.Written

/-! How names are referenced.

A component or a type has the text of its key as its name, and what refers to it gives the text of
a value. Both are made from scalars of a document, but in different ways: a key keeps all digits
of an integer and has a fraction or an exponent if it is a float, while a value has neither an
exponent nor a fraction where there is none. A scalar whose texts are the same leads to what is
declared under it, and no other one does. -/
namespace Provision
open Yaml (Value)

namespace Yaml.Value

/-! ### Keys of mappings -/

/-- A value has an entry, and none after it whose key has the same text. -/
def Declares (w k v : Value) : Prop :=
  ∃ before after, w.untagged = .mapping (before ++ (k, v) :: after) ∧
    ∀ e ∈ after, e.1.text? ≠ k.text?

/-- A relation gives a target, by itself or in its long form. -/
def Targets (u s : Value) : Prop :=
  u.untagged = s ∨ ∃ entries w, u.untagged = .mapping entries ∧ u.under? [Key.target] = some w ∧
    w.untagged = s

/-- The value of the entry is what the text of its key leads to. -/
theorem Declares.lookup {w k v : Value} {name : String} (h : w.Declares k v)
    (hk : k.text? = some name) : OrderedMap.lookup name w.fields.reverse = some v := by
  obtain ⟨before, after, hw, hafter⟩ := h
  have hfields : w.fields = named before ++ (name, v) :: named after := by
    rw [← fields_untagged, hw, fields, named_append, named_cons hk]
  have hnone : OrderedMap.lookup name (named after).reverse = none := by
    rw [OrderedMap.lookup_eq_none, List.map_reverse, List.mem_reverse]
    intro hmem
    obtain ⟨⟨text, u⟩, hu, rfl⟩ := List.mem_map.mp hmem
    obtain ⟨k', he, hk'⟩ := entry_of_mem_named hu
    exact hafter _ he (hk'.trans hk.symm)
  rw [hfields, List.reverse_append, List.reverse_cons, OrderedMap.lookup_append,
    OrderedMap.lookup_append, hnone]
  simp [OrderedMap.lookup]

theorem Declares.under? {u w k v : Value} {path : List String} {name : String}
    (h : w.Declares k v) (hw : u.under? path = some w) (hk : k.text? = some name) :
    u.under? (path ++ [name]) = some v := by
  rw [under?_append, hw, Option.bind_some, Value.under?, h.lookup hk]
  rfl

end Yaml.Value

namespace EntityGraph
open Builder (leafValue)

/-! ### Texts of scalars -/

/-- The text by which a value refers to what has a name. -/
def reference? (s : Value) : Option String := (leafValue s).map Scalar.text

/-- A scalar refers to what is declared under it. -/
def Faithful (s : Value) : Prop := reference? s = s.text?

instance (s : Value) : Decidable (Faithful s) :=
  inferInstanceAs (Decidable (reference? s = s.text?))

theorem leafValue_untagged : (v : Value) → leafValue v.untagged = leafValue v
  | .tagged _ v => leafValue_untagged v
  | .null | .boolean _ | .integer _ | .float _ | .string _ | .sequence _ | .mapping _ => rfl

theorem isSome_reference? {s : Value} (h : s.text?.isSome) : (reference? s).isSome := by
  cases s <;> first | rfl | cases h

theorem faithful_string (s : String) : Faithful (.string s) := rfl

theorem faithful_boolean (b : Bool) : Faithful (.boolean b) := by cases b <;> rfl

theorem leafValue_of_lt {i : Int} (h : i < Numeral.halfWordCount) :
    leafValue (.integer i) = some (.integer (.ofInt i)) := by
  rw [leafValue, Builder.scalar, if_pos h]
  exact fun _ _ h => by cases h

theorem leafValue_of_le {i : Int} (h : Numeral.halfWordCount ≤ i) :
    leafValue (.integer i) = some (.float (.ofInt i)) := by
  rw [leafValue, Builder.scalar, if_neg (Int.not_lt.mpr h)]
  exact fun _ _ h => by cases h

/-- A signed word is written as it is. -/
theorem reference?_of_lt {i : Int} (hlow : -Numeral.halfWordCount ≤ i)
    (hhigh : i < Numeral.halfWordCount) : reference? (.integer i) = some (toString i) := by
  rw [reference?, leafValue_of_lt hhigh, Option.map_some, Scalar.text,
    Int64.toInt_ofInt_of_le hlow hhigh]

theorem exists_reference?_of_le {n : Nat} (hlow : 2 ^ 63 ≤ n) (hhigh : n < 2 ^ 64) :
    ∃ r : Nat, reference? (.integer n) = some (toString r) ∧ 1000 ∣ r ∧ r < n + 4096 ∧
      n < r + 4096 := by
  obtain ⟨r, htext, hr⟩ := Double.exists_plain_ofInt hlow hhigh
  refine ⟨r, ?_, hr⟩
  rw [reference?, leafValue_of_le (by unfold Numeral.halfWordCount; omega), Option.map_some,
    Scalar.text, htext]

/-- Beyond the signed words only multiples of a thousand have their own digits. -/
theorem dvd_of_faithful {n : Nat} (hlow : 2 ^ 63 ≤ n) (hhigh : n < 2 ^ 64)
    (h : Faithful (.integer n)) : 1000 ∣ n := by
  obtain ⟨r, htext, hthousand, _⟩ := exists_reference?_of_le hlow hhigh
  have heq : toString r = toString n := Option.some.inj (htext.symm.trans h)
  exact Value.eq_of_toString_eq heq ▸ hthousand

/-! ### Paths -/

section Paths
variable {g : EntityGraph}

/-- What two names lead to is declared below the first of them. -/
theorem mem_declared_of_descend? {i c : EntityId} {container name : String}
    (h : g.descend? i [container, name] = some c) : c ∈ g.declared i container := by
  obtain ⟨p, hp, h⟩ := Option.bind_eq_some_iff.mp h
  obtain ⟨c', hc, hsame⟩ := Option.bind_eq_some_iff.mp h
  cases hsame
  rw [declared, hp]
  exact OrderedMap.mem_values.mpr ⟨name, OrderedMap.get?_eq_some.mp hc⟩

/-- A relation is below an entry of `relations`. -/
theorem mem_relationsBelow_of_descend? {i r : EntityId} {index name : String}
    (h : g.descend? i [Key.relations, index, name] = some r) : r ∈ g.relationsBelow i := by
  rw [show [Key.relations, index, name] = [Key.relations, index] ++ [name] from rfl,
    descend?_append] at h
  obtain ⟨entry, hentry, h⟩ := Option.bind_eq_some_iff.mp h
  obtain ⟨r', hr, hsame⟩ := Option.bind_eq_some_iff.mp h
  cases hsame
  exact List.mem_flatMap.mpr ⟨entry, mem_declared_of_descend? hentry,
    OrderedMap.mem_values.mpr ⟨name, OrderedMap.get?_eq_some.mp hr⟩⟩

end Paths

/-! ### Targets of relations -/

/-- A relation has the text that refers to its target, in both forms. -/
theorem Depicts.targetText? {g : EntityGraph} {r : EntityId} {u s : Value}
    (h : Depicts g.entity r u) (hu : u.Targets s) (hs : s.text?.isSome) :
    g.targetText? r = reference? s := by
  rcases hu with rfl | ⟨entries, w, hentries, hw, rfl⟩
  · obtain ⟨text, htext⟩ := Option.isSome_iff_exists.mp (isSome_reference? hs)
    rw [EntityGraph.targetText?, h.value, ← leafValue_untagged]
    show (reference? u.untagged).or _ = _
    rw [htext, Option.some_or]
  · have hvalue : (g.entity r).value = none := by
      rw [h.value, ← leafValue_untagged, hentries]
      rfl
    obtain ⟨w', hlookup, hsame⟩ := Option.bind_eq_some_iff.mp hw
    cases hsame
    rw [EntityGraph.targetText?, hvalue, childText?, h.childValue?, hlookup, Option.bind_some,
      reference?, leafValue_untagged]
    rfl

/-! ### Types of instances -/

namespace Builder

/-- An entity for which there is a type gets one. -/
theorem isSome_typeRef_foldl {refs : List (EntityId × EntityId)} {entities : Array Entity}
    {i : EntityId} (hi : i < entities.size)
    (h : (∃ t, (i, t) ∈ refs) ∨ (entities[i]?.getD default).typeRef.isSome) :
    ((refs.foldl assign entities)[i]?.getD default).typeRef.isSome := by
  induction refs generalizing entities with
  | nil =>
    rcases h with ⟨t, ht⟩ | h
    · cases ht
    · exact h
  | cons ref rest ih =>
    refine ih (by rwa [assign, Array.size_modify]) ?_
    rw [typeRef_assign ref hi]
    by_cases hsame : i = ref.1
    · rw [if_pos hsame]
      exact .inr rfl
    · rw [if_neg hsame]
      refine h.imp_left fun hmem => ?_
      obtain ⟨t, ht⟩ := hmem
      rcases List.mem_cons.mp ht with rfl | ht
      · exact absurd rfl hsame
      · exact ⟨t, ht⟩

/-- A type of a namespace is below the namespace. -/
theorem find?_build_eq (b : Builder) (space : TypeSpace) (name : String) :
    space.find? b.build name = b.build.descend? root [space.key, name] := by
  have hfind : space.find? b.build name = (b.namespaceIndex space.key).get? name := by
    cases space <;> rfl
  rw [hfind, descend?, EntityGraph.child?, children_build, namespaceIndex, child?]
  cases (b.entity root).children.get? space.key with
  | none => rfl
  | some p =>
    rw [Option.bind_some, descend?, EntityGraph.child?, children_build]
    exact (Option.bind_fun_some _).symm

theorem childValue?_build (b : Builder) (i : EntityId) (name : String) :
    b.build.childValue? i name = (b.child? i name).bind fun c => (b.entity c).value := by
  rw [childValue?, EntityGraph.child?, children_build, child?]
  refine Option.bind_congr fun c _ => ?_
  obtain ⟨_, hc⟩ := b.exists_entity_build c
  rw [hc]

/-- The type of an instance is the one that the text of its `type` names. -/
theorem Grown.typeRef_instance {b : Builder} (hb : b.Grown) {i : EntityId}
    (hi : i ∈ b.build.instances) : (b.build.entity i).typeRef =
      (b.build.childText? i Key.type).bind b.build.componentType? := by
  have hmem (t : EntityId) : (i, t) ∈ b.instanceRef (b.namespaceIndex Key.componentTypes) i ↔
      (b.build.childText? i Key.type).bind b.build.componentType? = some t := by
    rw [mem_instanceRef, childText?, childValue?_build, Option.bind_map, Option.bind_eq_some_iff]
    exact and_iff_right rfl
  have hrefs {t : EntityId} (ht : (i, t) ∈ b.instanceRef (b.namespaceIndex Key.componentTypes) i) :
      (i, t) ∈ b.typeRefs :=
    List.mem_flatMap.mpr ⟨i, instances_build b ▸ hi, List.mem_append_left _ ht⟩
  cases htype : (b.build.entity i).typeRef with
  | some t =>
    rcases mem_of_typeRef_foldl htype with href | hold
    · obtain ⟨j, hj, href⟩ := List.mem_flatMap.mp href
      rcases List.mem_append.mp href with href | href
      · cases (mem_instanceRef.mp href).1
        exact ((hmem t).mp href).symm
      · exact absurd (mem_relationRefs href).1 (notMem_relationsBelow hb.isTree_build hi)
    · have hold : (b.entity i).typeRef = some t := hold
      rw [hb.typeRef] at hold
      cases hold
  | none =>
    cases hnamed : (b.build.childText? i Key.type).bind b.build.componentType? with
    | none => rfl
    | some t =>
      obtain ⟨p, name, _, hchild⟩ := exists_of_mem_declared hi
      rw [children_build] at hchild
      have hsome : (b.build.entity i).typeRef.isSome :=
        isSome_typeRef_foldl (hb.child hchild).2.1 (.inl ⟨t, hrefs ((hmem t).mpr hnamed)⟩)
      rw [htype] at hsome
      cases hsome

end Builder

/-! ### What is declared and what refers to it -/

section ReadFrom
variable {builtIn : Bool} {v : Value} {g : EntityGraph} {entries : List (Value × Value)}
  (h : g.ReadFrom builtIn v entries)
include h

namespace ReadFrom

/-- What two names or more lead to in the document is found under them. -/
theorem exists_descend? {first second : String} {path : List String} {w : Value}
    (hw : (Value.mapping entries).under? (first :: second :: path) = some w) :
    ∃ i, g.descend? root (first :: second :: path) = some i ∧ Depicts g.entity i w :=
  exists_descend?_of_under? h.shows h.distinct hw

theorem name_of_descend? {i c : EntityId} (path : List String) {name : String}
    (hc : g.descend? i (path ++ [name]) = some c) : (g.entity c).name = name := by
  rw [descend?_append] at hc
  obtain ⟨p, _, hc⟩ := Option.bind_eq_some_iff.mp hc
  obtain ⟨c', hchild, hsame⟩ := Option.bind_eq_some_iff.mp hc
  cases hsame
  exact name_of_child h.built (OrderedMap.get?_eq_some.mp hchild)

/-- A component of the document has an instance. -/
theorem exists_instance {c : String} {w : Value}
    (hw : (Value.mapping entries).under? [Key.components, c] = some w) :
    ∃ i ∈ g.instances, g.descend? root [Key.components, c] = some i ∧ (g.entity i).name = c ∧
      Depicts g.entity i w := by
  obtain ⟨i, hi, hdepicts⟩ := h.exists_descend? hw
  exact ⟨i, mem_declared_of_descend? hi, hi, h.name_of_descend? [Key.components] hi, hdepicts⟩

/-- A relation of the document is one of the instance of its component. -/
theorem exists_relation {c index relation : String} {u : Value}
    (hu : (Value.mapping entries).under? [Key.components, c, Key.relations, index, relation] =
      some u) :
    ∃ i ∈ g.instances, (g.entity i).name = c ∧ ∃ r ∈ g.relationsBelow i,
      (g.entity r).name = relation ∧ Depicts g.entity r u := by
  have hsplit : [Key.components, c, Key.relations, index, relation] =
    [Key.components, c] ++ [Key.relations, index, relation] := rfl
  obtain ⟨r, hr, hrel⟩ := h.exists_descend? hu
  rw [hsplit, Value.under?_append] at hu
  obtain ⟨w, hw, _⟩ := Option.bind_eq_some_iff.mp hu
  obtain ⟨i, hi, hpath, hname, _⟩ := h.exists_instance hw
  have hbelow := hr
  rw [hsplit, descend?_append, hpath] at hbelow
  exact ⟨i, hi, hname, r, mem_relationsBelow_of_descend? hbelow,
    h.name_of_descend? [Key.components, c, Key.relations, index] hr, hrel⟩

/-- The type of an instance is the one that its `type` refers to. -/
theorem exists_typed {c : String} {w : Value}
    (hw : (Value.mapping entries).under? [Key.components, c, Key.type] = some w) :
    ∃ i ∈ g.instances, (g.entity i).name = c ∧
      (g.entity i).typeRef = (reference? w).bind g.componentType? := by
  rw [show [Key.components, c, Key.type] = [Key.components, c] ++ [Key.type] from rfl,
    Value.under?_append] at hw
  obtain ⟨u, hu, hw⟩ := Option.bind_eq_some_iff.mp hw
  obtain ⟨i, hi, _, hname, hdepicts⟩ := h.exists_instance hu
  obtain ⟨w', hlookup, hsame⟩ := Option.bind_eq_some_iff.mp hw
  cases hsame
  obtain ⟨b, hb, rfl⟩ := exists_grown_of_ofValue h.built
  refine ⟨i, hi, hname, ?_⟩
  rw [hb.typeRef_instance hi, childText?, hdepicts.childValue?, hlookup]
  rfl

theorem find?_eq (space : TypeSpace) (name : String) :
    space.find? g name = g.descend? root [space.key, name] := by
  obtain ⟨b, _, rfl⟩ := exists_grown_of_ofValue h.built
  exact b.find?_build_eq space name

theorem name_of_find? {space : TypeSpace} {name : String} {t : EntityId}
    (ht : space.find? g name = some t) : (g.entity t).name = name :=
  h.name_of_descend? [space.key] (h.find?_eq space name ▸ ht)

/-- A type is found under its own name only. -/
theorem find?_eq_some {space : TypeSpace} {name other : String} {t : EntityId}
    (ht : space.find? g name = some t) : space.find? g other = some t ↔ other = name := by
  constructor
  · exact fun hother => (h.name_of_find? hother).symm.trans (h.name_of_find? ht)
  · rintro rfl
    exact ht

end ReadFrom
end ReadFrom

end EntityGraph

/-- An edge leads to the component whose name its relation gives. -/
theorem Model.MadeOf.getElem?_target {g : EntityGraph} {parts : List Part} {t : Topology}
    (h : MadeOf g parts t) (hnames : (g.instances.map fun i => (g.entity i).name).Nodup)
    {e : Edge} (he : e ∈ t.edges) {j : EntityId} (hj : j ∈ g.instances) :
    g.instances[e.target]? = some j ↔ (g.entity j).name = e.relation.target := by
  obtain ⟨_, target, _, _, htarget, hname⟩ := h.ends he
  obtain ⟨j', hj', hread⟩ := getElem?_of_forall₂ h.forall₂_components.flip
    (show t.components.toList[e.target]? = some target by simpa using htarget)
  have hread := (Component.ofEntity_eq_ok hread).1.symm.trans hname
  rw [hj', Option.some_inj]
  constructor
  · rintro rfl
    exact hread
  · intro hsame
    exact List.inj_on_of_nodup_map hnames (List.mem_of_getElem? hj') hj (hread.trans hsame.symm)

open EntityGraph

/-- The edge of a relation leads to the component with a name exactly if the relation's text is
this name. -/
theorem Model.exists_edge {builtIn : Bool} {v : Value} {g : EntityGraph}
    (hg : ofValue builtIn v = .ok g) {name : String} {m : Model} (hm : build name g = .ok m)
    {i j r : EntityId} (hi : i ∈ g.instances) (hr : r ∈ g.relationsBelow i)
    (hj : j ∈ g.instances) :
    ∃ (n : Nat) (e : Edge), g.relationEntries[n]? = some (i, r) ∧ m.topology.edges[n]? = some e ∧
      g.instances[e.source]? = some i ∧
      (g.instances[e.target]? = some j ↔ g.targetText? r = some (g.entity j).name) := by
  have hnames := nodup_names_instances hg
  obtain ⟨parts, t, ht, _, rfl⟩ := (build_eq_ok hnames).mp hm
  have hentry : (i, r) ∈ g.relationEntries :=
    List.mem_flatMap.mpr ⟨i, hi, List.mem_map.mpr ⟨r, hr, rfl⟩⟩
  obtain ⟨n, hn⟩ := List.mem_iff_getElem?.mp hentry
  obtain ⟨e, he, hrel, hsource⟩ := getElem?_of_forall₂ ht.forall₂_edges hn
  refine ⟨n, e, hn, by simpa using he, hsource, ?_⟩
  rw [ht.getElem?_target hnames (Array.mem_def.mpr (List.mem_of_getElem? he)) hj,
    (relationOf_eq_ok hrel).2.2.1, Option.some_inj, eq_comm]

namespace EntityGraph

/-! ### References -/

/-- What a document declares as a component under a key is an instance with the text of the key
as its name. A relation with the same scalar as its target has the text that refers to it. In
every model of the graph the edge of this relation leads to the instance exactly if the scalar is
faithful. -/
structure ComponentUnder (g : EntityGraph) (entries : List (Value × Value))
    (s definition : Value) (j : EntityId) : Prop where
  mem : j ∈ g.instances
  name : s.text? = some (g.entity j).name
  depicts : Depicts g.entity j definition
  relation : ∀ c index relation u, (Value.mapping entries).under?
      [Key.components, c, Key.relations, index, relation] = some u → u.Targets s →
    ∃ i ∈ g.instances, (g.entity i).name = c ∧ ∃ r ∈ g.relationsBelow i,
      (g.entity r).name = relation ∧ g.targetText? r = reference? s ∧
      ∀ name m, Model.build name g = .ok m →
        ∃ (n : Nat) (e : Edge), g.relationEntries[n]? = some (i, r) ∧
          m.topology.edges[n]? = some e ∧ g.instances[e.source]? = some i ∧
          (g.instances[e.target]? = some j ↔ Faithful s)

/-- What a document declares as a component type under a key is found under the text of the key.
A component that gives the same scalar as its type has this type exactly if the scalar is
faithful. -/
structure TypeUnder (g : EntityGraph) (entries : List (Value × Value))
    (s definition : Value) (t : EntityId) : Prop where
  found : s.text?.bind g.componentType? = some t
  depicts : Depicts g.entity t definition
  component : ∀ c w, (Value.mapping entries).under? [Key.components, c, Key.type] = some w →
    w.untagged = s →
    ∃ i ∈ g.instances, (g.entity i).name = c ∧ ((g.entity i).typeRef = some t ↔ Faithful s)

namespace ReadFrom
variable {builtIn : Bool} {v : Value} {g : EntityGraph} {entries : List (Value × Value)}
  (h : g.ReadFrom builtIn v entries)
include h

theorem exists_componentUnder {components s definition : Value} (hs : s.text?.isSome)
    (hcomponents : (Value.mapping entries).under? [Key.components] = some components)
    (hdeclares : components.Declares s definition) :
    ∃ j, g.ComponentUnder entries s definition j := by
  obtain ⟨key, hkey⟩ := Option.isSome_iff_exists.mp hs
  obtain ⟨j, hj, _, hname, hdepicts⟩ := h.exists_instance (hdeclares.under? hcomponents hkey)
  refine ⟨j, hj, by rw [hkey, hname], hdepicts, fun c index relation u hu htargets => ?_⟩
  obtain ⟨i, hi, hc, r, hr, hrelation, hrel⟩ := h.exists_relation hu
  have htext := hrel.targetText? htargets hs
  refine ⟨i, hi, hc, r, hr, hrelation, htext, fun name m hm => ?_⟩
  obtain ⟨n, e, hn, he, hsource, htarget⟩ := Model.exists_edge h.built hm hi hr hj
  refine ⟨n, e, hn, he, hsource, ?_⟩
  rw [htarget, htext, hname, Faithful, hkey]

theorem exists_typeUnder {types s definition : Value} (hs : s.text?.isSome)
    (htypes : (Value.mapping entries).under? [Key.componentTypes] = some types)
    (hdeclares : types.Declares s definition) : ∃ t, g.TypeUnder entries s definition t := by
  obtain ⟨key, hkey⟩ := Option.isSome_iff_exists.mp hs
  obtain ⟨t, ht, hdepicts⟩ := h.exists_descend? (hdeclares.under? htypes hkey)
  have hfound : TypeSpace.component.find? g key = some t := (h.find?_eq .component key).trans ht
  refine ⟨t, by rw [hkey]; exact hfound, hdepicts, fun c w hw hsame => ?_⟩
  obtain ⟨i, hi, hc, htype⟩ := h.exists_typed hw
  refine ⟨i, hi, hc, ?_⟩
  have hw : reference? w = reference? s := by
    rw [← hsame, reference?, reference?, leafValue_untagged]
  obtain ⟨other, hother⟩ := Option.isSome_iff_exists.mp (isSome_reference? hs)
  rw [htype, hw, hother, Faithful, hother, hkey, Option.some_inj, ← h.find?_eq_some hfound]
  rfl

end ReadFrom

/-- **A name leads to what is declared under it exactly if its two texts are the same.** A
component has the text of its key as its name, and so has a type. Where the same scalar is the
target of a relation, in its short or its long form, or the `type` of a component, what is found
is what was declared under this scalar exactly if its text as a value is its text as a key. This
holds of strings, of truth values, of integers below `2 ^ 63`, and of floats that have a fraction
and need no exponent, unless they are in the middle between two shortest decimals. Among the
integers from `2 ^ 63` on it fails for all that are no multiples of a thousand, and among the floats
for whole numbers, for those with an exponent, and for those that are not finite. -/
theorem names_referenced {builtIn : Bool} {origin text : String} {g : EntityGraph}
    (h : parse builtIn origin text = .ok g) :
    ((∀ s, Faithful (.string s)) ∧ (∀ b, Faithful (.boolean b)) ∧
      (∀ i : Int, -2 ^ 63 ≤ i → i < 2 ^ 63 → Faithful (.integer i)) ∧
      (∀ n : Nat, 2 ^ 63 ≤ n → n < 2 ^ 64 → Faithful (.integer n) → 1000 ∣ n) ∧
      (∀ negative m e d, Double.Fractional m e d → Faithful (.float (.finite negative m e))) ∧
      ∀ x : Double, Faithful (.float x) →
        x.isFinite ∧ '.' ∈ x.keyText.toList ∧ 'e' ∉ x.keyText.toList) ∧
    ∃ v entries, Value.parse text = .ok v ∧ topLevel v = .ok entries ∧
      (∀ components s definition, s.text?.isSome →
        (Value.mapping entries).under? [Key.components] = some components →
        components.Declares s definition → ∃ j, g.ComponentUnder entries s definition j) ∧
      ∀ types s definition, s.text?.isSome →
        (Value.mapping entries).under? [Key.componentTypes] = some types →
        types.Declares s definition → ∃ t, g.TypeUnder entries s definition t := by
  obtain ⟨v, entries, hv, hread⟩ := exists_readFrom h
  refine ⟨⟨faithful_string, faithful_boolean, fun i hlow hhigh => reference?_of_lt hlow hhigh,
    fun n => dvd_of_faithful, fun negative m e d hd => ?_, fun x hx => ?_⟩, v, entries, hv,
    hread.top, fun _ _ _ => hread.exists_componentUnder, fun _ _ _ => hread.exists_typeUnder⟩
  · exact congrArg some (hd.keyText_eq negative).symm
  · exact Double.finite_of_keyText_eq (Option.some.inj hx).symm

/-- A machine that has a number as its name, and an application on it. -/
def numberedText (number : String) : String :=
  "components:\n  " ++ number ++ ":\n    type: compute\n  app:\n    type: software_component\n" ++
    "    relations:\n      - hosted_on: " ++ number ++ "\n"

def computeComponent : Value := BuiltIn.mapping [(Key.type, .string "compute")]

def numberedComponents (number : Value) : Value :=
  .mapping [(number, computeComponent),
    (.string "app", BuiltIn.mapping [(Key.type, .string "software_component"),
      (Key.relations, .sequence [BuiltIn.mapping [("hosted_on", number)]])])]

def numberedEntries (number : Value) : List (Value × Value) :=
  [(.string Key.components, numberedComponents number)]

theorem declares_numbered {number : Value} (h : number.text? ≠ some "app") :
    (numberedComponents number).Declares number computeComponent := by
  refine ⟨[], _, rfl, fun e he => ?_⟩
  cases List.mem_singleton.mp he
  exact h.symm

def oneAndHalf : Value := .float (.ofDecimal false 15 (-1))

theorem parse_oneAndHalf :
    Value.parse (numberedText "1.5") = .ok (.mapping (numberedEntries oneAndHalf)) :=
  Value.parse_eq_ok (by decide +kernel)

theorem names_referenced_fraction : ∃ g m i j, ∃ e ∈ m.topology.edges,
    parse true "numbered.yaml" (numberedText "1.5") = .ok g ∧
    Model.build "numbered" g = .ok m ∧ (g.entity i).name = "app" ∧ (g.entity j).name = "1.5" ∧
    g.instances[e.source]? = some i ∧ g.instances[e.target]? = some j := by
  have hbuilt : ((ofValue true (.mapping (numberedEntries oneAndHalf))).mapError
      (.unreadableModel "numbered.yaml") >>= Model.build "numbered").map
      (fun m => m.topology.size) = .ok 2 := by decide +kernel
  have htext : oneAndHalf.text? = some "1.5" := by decide +kernel
  obtain ⟨m, hm, _⟩ := map_eq_ok.mp hbuilt
  obtain ⟨g, hg, hm⟩ := bind_eq_ok.mp hm
  have hg : parse true "numbered.yaml" (numberedText "1.5") = .ok g := by
    rw [parse, parse_oneAndHalf]
    exact hg
  obtain ⟨_, v, entries, hv, htop, hcomponents, _⟩ := names_referenced hg
  cases hv.symm.trans parse_oneAndHalf
  cases htop
  obtain ⟨j, hj⟩ := hcomponents (numberedComponents oneAndHalf) oneAndHalf computeComponent rfl rfl
    (declares_numbered (by rw [htext]; decide))
  obtain ⟨i, _, hi, _, _, _, _, hedges⟩ :=
    hj.relation "app" "0" "hosted_on" oneAndHalf rfl (.inl rfl)
  obtain ⟨n, e, _, he, hsource, htarget⟩ := hedges "numbered" m hm
  exact ⟨g, m, i, j, e, Array.mem_of_getElem? he, hg, hm, hi,
    Option.some.inj (hj.name.symm.trans htext), hsource, htarget.mpr (by decide +kernel)⟩

def one : Value := .float (.ofDecimal false 10 (-1))

theorem parse_one : Value.parse (numberedText "1.0") = .ok (.mapping (numberedEntries one)) :=
  Value.parse_eq_ok (by decide +kernel)

/-- A machine with a whole float as its name is not found under it. -/
theorem whole_unreferenced : ∃ g, parse true "numbered.yaml" (numberedText "1.0") = .ok g ∧
    Value.parse (numberedText "1.0") = .ok (.mapping (numberedEntries one)) ∧
    (numberedComponents one).Declares one computeComponent ∧
    (Value.mapping (numberedEntries one)).under?
      [Key.components, "app", Key.relations, "0", "hosted_on"] = some one ∧
    (∃ j ∈ g.instances, (g.entity j).name = "1.0") ∧
    Model.build "numbered" g = .error (.unknownComponent "app" "hosted_on" "1") := by
  have hread : ((ofValue true (.mapping (numberedEntries one))).mapError
      (Fault.unreadableModel "numbered.yaml")).map (fun g =>
        (g.names g.instances, (Model.build "numbered" g).map Model.name)) =
      .ok (["1.0", "app"], .error (.unknownComponent "app" "hosted_on" "1")) := by
    decide +kernel
  obtain ⟨g, hg, hall⟩ := map_eq_ok.mp hread
  obtain ⟨hnames, hbuild⟩ := Prod.mk.inj hall
  have hg : parse true "numbered.yaml" (numberedText "1.0") = .ok g := by
    rw [parse, parse_one]
    exact hg
  obtain ⟨j, hj, hname⟩ := List.mem_map.mp (hnames ▸ List.mem_cons_self (a := "1.0"))
  refine ⟨g, hg, parse_one, declares_numbered (by decide +kernel), rfl, ⟨j, hj, hname⟩, ?_⟩
  cases hm : Model.build "numbered" g with
  | ok m =>
    rw [hm] at hbuild
    cases hbuild
  | error fault =>
    rw [hm] at hbuild
    exact congrArg Except.error (Except.error.inj hbuild)

end EntityGraph
end Provision
