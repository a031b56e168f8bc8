import Provision.Proofs.Entity.Chain
import Provision.Proofs.Model.Build

/-! Kinds and types.

The backends go by kinds, whose lineages are fixed; documents go by types, whose lineages follow
from what they extend. Kinds are named after the built-in types. A chain of types runs through
types of the document first and then, if it meets a built-in type, through the lineage of that
one: a built-in type extends built-in types only. So the kind of a chain refines another kind
exactly if the type of that one is in the chain. Only the generic kind does not count, because
it is also the kind of chains that meet no built-in type. -/
namespace Provision
open Yaml (Value)
open EntityGraph.Builder (leafValue)

namespace Kind

/-! ### Lineages of kinds -/

/-- What lineages and type names of a closed set of kinds have to fulfil. -/
class Lawful (κ : Type) [Kind κ] : Prop where
  lineage_eq (k : κ) : lineage k = k :: ((parent k).map lineage).getD []
  nodup_lineage (k : κ) : (lineage k).Nodup
  lineage_generic : lineage (generic : κ) = [generic]
  mem_special (k : κ) : k ∈ special ↔ k ≠ generic
  typeName_injective : Function.Injective (typeName : κ → String)

instance : Lawful ComponentKind where
  lineage_eq := ComponentKind.lineage_eq
  nodup_lineage k := by cases k <;> decide
  lineage_generic := rfl
  mem_special k := by cases k <;> decide
  typeName_injective k l h := by
    cases k <;> cases l <;> first | rfl | exact absurd h (by decide)

instance : Lawful RelationKind where
  lineage_eq := RelationKind.lineage_eq
  nodup_lineage k := by cases k <;> decide
  lineage_generic := rfl
  mem_special k := by cases k <;> decide
  typeName_injective k l h := by
    cases k <;> cases l <;> first | rfl | exact absurd h (by decide)

variable {κ : Type} [Kind κ]

/-- The lineage of a kind, if there is one. -/
def lineageFrom (k? : Option κ) : List κ := (k?.map lineage).getD []

theorem ofTypeName?_eq_none {name : String} (h : ∀ k : κ, typeName k ≠ name) :
    ofTypeName? name = (none : Option κ) :=
  List.find?_eq_none.mpr fun k _ => by simpa using h k

variable [Lawful κ] [DecidableEq κ]

theorem ofTypeName?_typeName (k : κ) :
    ofTypeName? (typeName k) = if k = generic then none else some k := by
  split
  case isTrue h =>
    refine List.find?_eq_none.mpr fun l hl => ?_
    have hne := (Lawful.mem_special l).mp hl
    rw [beq_iff_eq]
    exact fun hname => hne ((Lawful.typeName_injective hname).trans h)
  case isFalse h =>
    have hmem := (Lawful.mem_special k).mpr h
    cases hfind : ofTypeName? (κ := κ) (typeName k) with
    | none =>
      exact absurd (beq_self_eq_true (typeName k)) (List.find?_eq_none.mp hfind k hmem)
    | some l =>
      have hname : typeName l = typeName k := by simpa using List.find?_some hfind
      rw [Lawful.typeName_injective hname]

/-- A chain has the kind of the lineage that it ends with. -/
theorem resolve_append {own : List String}
    (hown : ∀ name ∈ own, ∀ k : κ, typeName k ≠ name) (k? : Option κ) :
    resolve (own ++ (lineageFrom k?).map typeName) = k?.getD generic := by
  have hnone : own.findSome? ofTypeName? = (none : Option κ) :=
    List.findSome?_eq_none_iff.mpr fun name hname => ofTypeName?_eq_none (hown name hname)
  rw [resolve, List.findSome?_append, hnone, Option.none_or]
  cases k? with
  | none => rfl
  | some k =>
    show (((lineage k).map typeName).findSome? ofTypeName?).getD generic = k
    by_cases hk : k = generic
    · subst hk
      rw [Lawful.lineage_generic, List.map_singleton, List.findSome?_singleton,
        ofTypeName?_typeName, if_pos rfl]
      rfl
    · rw [Lawful.lineage_eq, List.map_cons, List.findSome?_cons, ofTypeName?_typeName, if_neg hk]
      rfl

/-- The kind of such a chain refines another one exactly if the chain has its name. -/
theorem isA_resolve_append {own : List String}
    (hown : ∀ name ∈ own, ∀ k : κ, typeName k ≠ name) (k? : Option κ) {k : κ}
    (hk : k ≠ generic) : isA (resolve (own ++ (lineageFrom k?).map typeName)) k ↔
      typeName k ∈ own ++ (lineageFrom k?).map typeName := by
  have hnot : typeName k ∉ own := fun h => hown _ h k rfl
  rw [resolve_append hown, isA, decide_eq_true_iff, List.mem_append, or_iff_right hnot,
    List.mem_map_of_injective Lawful.typeName_injective]
  cases k? with
  | none => simp [lineageFrom, Lawful.lineage_generic, hk]
  | some l => rfl

end Kind

/-! ### Types of kinds -/

/-- The name of a type's parent, as a definition has it. -/
def supertype? (definition : Value) : Option String :=
  ((((OrderedMap.lookup Key.supertype definition.fields.reverse).bind leafValue).map
    Scalar.text).map Text.trim).filter fun name => name ≠ "" && name ≠ "null" && name ≠ "~"

/-- The built-in types of a namespace stand for the kinds: each kind has a type, and what this
one extends is the type of the kind that the kind refines. -/
structure TypeSpace.StandsFor (space : TypeSpace) (κ : Type) [Kind κ] : Prop where
  declared : ∀ k : κ, Kind.typeName k ∈ space.builtIn.map Prod.fst
  supertype : ∀ k : κ, (OrderedMap.lookup (Kind.typeName k) space.builtIn.reverse).bind supertype? =
    (Kind.parent k).map Kind.typeName

/-- A document declares a type under the name of a built-in one. -/
def TypeSpace.Redeclares (space : TypeSpace) (entries : List (Value × Value)) : Prop :=
  ∃ name ∈ (space.declared entries).map Prod.fst, name ∈ space.builtIn.map Prod.fst

theorem component_standsFor : TypeSpace.component.StandsFor ComponentKind where
  declared k := by cases k <;> decide
  supertype k := by cases k <;> decide +kernel

theorem relation_standsFor : TypeSpace.relation.StandsFor RelationKind where
  declared k := by cases k <;> decide
  supertype k := by cases k <;> decide +kernel

namespace EntityGraph

theorem Depicts.value {e : EntityId → Entity} {i : EntityId} {v : Value} (h : Depicts e i v) :
    (e i).value = leafValue v := by
  induction h with
  | mapping hvalue => exact hvalue
  | sequence hvalue => exact hvalue
  | leaf _ hvalue => exact hvalue
  | tagged _ ih => exact ih

/-- A child has the value that its name has last. -/
theorem Depicts.childValue? {g : EntityGraph} {i : EntityId} {v : Value} (h : Depicts g.entity i v)
    (name : String) :
    g.childValue? i name = (OrderedMap.lookup name v.fields.reverse).bind leafValue := by
  unfold EntityGraph.childValue? child?
  cases hv : OrderedMap.lookup name v.fields.reverse with
  | none =>
    rw [OrderedMap.lookup_eq_none, List.map_reverse, List.mem_reverse] at hv
    rw [h.shows.child_eq_none hv]
    rfl
  | some w =>
    obtain ⟨c, hc, hdepicts⟩ := h.shows.exists_child hv
    rw [hc]
    exact hdepicts.value

/-- The parent of a type that is found is the one in its definition. -/
theorem Depicts.parentName? {g : EntityGraph} {t : EntityId} {definition : Value}
    (h : Depicts g.entity t definition) : g.parentName? t = supertype? definition := by
  rw [EntityGraph.parentName?, childText?, h.childValue?, supertype?]

/-- What is known of the types of a namespace: each has the name under which it is found, has its
parent in the same namespace, and is built in if it is found for a kind. -/
structure Standard (g : EntityGraph) (space : TypeSpace) (κ : Type) [Kind κ] : Prop where
  name : ∀ name t, space.find? g name = some t → (g.entity t).name = name
  typeLike : ∀ name t, space.find? g name = some t →
    ∀ other, g.typeLike? t other = space.find? g other
  parentName : ∀ (k : κ) t, space.find? g (Kind.typeName k) = some t →
    g.parentName? t = (Kind.parent k).map Kind.typeName

theorem parentType?_eq_ok {g : EntityGraph} {t : EntityId} {parent? : Option EntityId}
    (h : g.parentType? t = .ok parent?) :
    (g.parentName? t = none ∧ parent? = none) ∨
      ∃ name parent, g.parentName? t = some name ∧ g.typeLike? t name = some parent ∧
        parent? = some parent := by
  unfold parentType? at h
  split at h
  case h_1 hname =>
    cases h
    exact .inl ⟨hname, rfl⟩
  case h_2 name hname =>
    split at h
    case h_1 parent hparent =>
      cases h
      exact .inr ⟨name, parent, hname, hparent, rfl⟩
    case h_2 => cases h

/-- The types of a chain from one on, if others are in it already. -/
inductive Continues (g : EntityGraph) : List EntityId → EntityId → List EntityId → Prop where
  | again {visited : List EntityId} {t : EntityId} : t ∈ visited → Continues g visited t []
  | last {visited : List EntityId} {t : EntityId} : g.parentName? t = none →
      Continues g visited t [t]
  | next {visited rest : List EntityId} {t parent : EntityId} {name : String} :
      g.parentName? t = some name → g.typeLike? t name = some parent →
      Continues g (t :: visited) parent rest → Continues g visited t (t :: rest)

theorem continues_of_chainFrom {g : EntityGraph} {start t : EntityId} {room : Nat}
    {visited types : List EntityId} (h : g.chainFrom start visited room t = .ok types) :
    g.Continues visited t types := by
  induction room generalizing visited t types with
  | zero =>
    unfold chainFrom at h
    split at h
    case isTrue hvisited =>
      cases h
      exact .again hvisited
    case isFalse => cases h
  | succ room ih =>
    unfold chainFrom at h
    split at h
    case isTrue hvisited =>
      cases h
      exact .again hvisited
    case isFalse =>
      obtain ⟨parent?, hparent?, h⟩ := bind_eq_ok.mp h
      rcases parentType?_eq_ok hparent? with ⟨hname, rfl⟩ | ⟨name, parent, hname, hlike, rfl⟩
      · cases h
        exact .last hname
      · obtain ⟨rest, hrest, h⟩ := bind_eq_ok.mp h
        cases h
        exact .next hname hlike (ih hrest)

section Standard
variable {g : EntityGraph} {space : TypeSpace} {κ : Type} [Kind κ] [Kind.Lawful κ]
  {t : EntityId} {visited types : List EntityId}

/-- The chain of a built-in type is the lineage of its kind. -/
theorem Standard.names_lineage (h : g.Standard space κ) (hchain : g.Continues visited t types)
    {k : κ} (ht : space.find? g (Kind.typeName k) = some t)
    (hvisited : ∀ t' ∈ visited, ∀ j ∈ Kind.lineage k, (g.entity t').name ≠ Kind.typeName j) :
    g.names types = (Kind.lineage k).map Kind.typeName := by
  induction hchain generalizing k with
  | again hmem =>
    refine absurd (h.name _ _ ht) (hvisited _ hmem k ?_)
    rw [Kind.Lawful.lineage_eq]
    exact List.mem_cons_self
  | last hnone =>
    have hparent := h.parentName k _ ht
    rw [hnone, eq_comm, Option.map_eq_none_iff] at hparent
    rw [Kind.Lawful.lineage_eq, hparent, names, List.map_singleton, h.name _ _ ht]
    rfl
  | next hsome hlike _ ih =>
    have hparent := h.parentName k _ ht
    rw [hsome, eq_comm, Option.map_eq_some_iff] at hparent
    obtain ⟨l, hl, rfl⟩ := hparent
    have hlineage := Kind.Lawful.lineage_eq k
    rw [hl, Option.map_some, Option.getD_some] at hlineage
    have hnodup := Kind.Lawful.nodup_lineage k
    rw [hlineage, List.nodup_cons] at hnodup
    rw [h.typeLike _ _ ht] at hlike
    have hnames := ih hlike fun t' ht' j hj => ?_
    · rw [hlineage, List.map_cons, ← hnames, names, List.map_cons, h.name _ _ ht]
      rfl
    · rcases List.mem_cons.mp ht' with rfl | ht'
      · rw [h.name _ _ ht]
        exact fun hkj => hnodup.1 (Kind.Lawful.typeName_injective hkj ▸ hj)
      · exact hvisited t' ht' j (by rw [hlineage]; exact List.mem_cons_of_mem _ hj)

/-- Names of a chain: those of types of the document, and then those of a lineage of kinds. -/
structure Names (names own : List String) (k? : Option κ) : Prop where
  eq : names = own ++ (Kind.lineageFrom k?).map Kind.typeName
  own : ∀ name ∈ own, ∀ k : κ, Kind.typeName k ≠ name

/-- A chain goes through types of the document and ends with the lineage of a kind, if it meets
the type of one. -/
theorem Standard.exists_names (h : g.Standard space κ) (hchain : g.Continues visited t types)
    {name : String} (ht : space.find? g name = some t)
    (hvisited : ∀ t' ∈ visited, ∀ k : κ, (g.entity t').name ≠ Kind.typeName k) :
    ∃ own, ∃ k? : Option κ, Names (g.names types) own k? := by
  induction hchain generalizing name with
  | again => exact ⟨[], none, rfl, fun name hname => absurd hname List.not_mem_nil⟩
  | @last visited t hnone =>
    have hname := h.name _ _ ht
    by_cases hkind : ∃ k : κ, Kind.typeName k = name
    · obtain ⟨k, rfl⟩ := hkind
      have hnames := h.names_lineage (.last hnone) ht fun t' ht' j _ => hvisited t' ht' j
      exact ⟨[], some k, hnames, fun name hname => absurd hname List.not_mem_nil⟩
    · refine ⟨[name], none, ?_, fun other hother k hk => ?_⟩
      · rw [names, List.map_singleton, hname]
        rfl
      · exact hkind ⟨k, hk.trans (List.mem_singleton.mp hother)⟩
  | @next visited rest t parent other hsome hlike hrest ih =>
    have hname := h.name _ _ ht
    by_cases hkind : ∃ k : κ, Kind.typeName k = name
    · obtain ⟨k, rfl⟩ := hkind
      have hnames := h.names_lineage (.next hsome hlike hrest) ht fun t' ht' j _ =>
        hvisited t' ht' j
      exact ⟨[], some k, hnames, fun name hname => absurd hname List.not_mem_nil⟩
    · have hown : ∀ k : κ, Kind.typeName k ≠ name := fun k hk => hkind ⟨k, hk⟩
      rw [h.typeLike _ _ ht] at hlike
      obtain ⟨own, k?, hnames, hrest⟩ := ih hlike fun t' ht' k => by
        rcases List.mem_cons.mp ht' with rfl | ht'
        · rw [hname]
          exact (hown k).symm
        · exact hvisited t' ht' k
      refine ⟨name :: own, k?, ?_, List.forall_mem_cons.mpr ⟨hown, hrest⟩⟩
      rw [List.cons_append, ← hnames, names, List.map_cons, hname]
      rfl

/-- The kind of a chain refines another one exactly if the type of that one is in the chain. -/
theorem Standard.isA_iff [DecidableEq κ] (h : g.Standard space κ) {name : String}
    (ht : space.find? g name = some t) (hchain : g.typeChain t = .ok types) {k : κ}
    (hk : k ≠ Kind.generic) :
    Kind.isA (Kind.resolve (g.names types)) k ↔ Kind.typeName k ∈ g.names types := by
  obtain ⟨own, k?, hnames, hown⟩ := h.exists_names (continues_of_chainFrom hchain) ht
    fun t' ht' => absurd ht' List.not_mem_nil
  rw [hnames]
  exact Kind.isA_resolve_append hown k? hk

end Standard

/-! ### Documents that redeclare no built-in type -/

namespace Builder

/-- What is under the name of a built-in type is the built-in type. -/
def Genuine (space : TypeSpace) (types : List (String × Value)) : Prop :=
  ∀ field ∈ types, field.1 ∈ space.builtIn.map Prod.fst → field ∈ space.builtIn

theorem genuine_foldl_joined {space : TypeSpace} {values : List Value}
    {types : List (String × Value)} (h : Genuine space types)
    (hvalues : ∀ name ∈ (values.flatMap Value.fields).map Prod.fst,
      name ∉ space.builtIn.map Prod.fst) :
    Genuine space (values.foldl TypeSpace.joined types) := by
  induction values generalizing types with
  | nil => exact h
  | cons v rest ih =>
    rw [List.flatMap_cons, List.map_append] at hvalues
    have hnew : Genuine space v.fields := fun field hfield hbuiltIn =>
      absurd hbuiltIn (hvalues _ (List.mem_append_left _ (List.mem_map_of_mem hfield)))
    refine ih ?_ fun name hname => hvalues name (List.mem_append_right _ hname)
    unfold TypeSpace.joined
    split
    case h_1 definitions =>
      intro field hfield
      rcases List.mem_append.mp hfield with hfield | hfield
      · exact h field hfield
      · exact hnew field hfield
    case h_2 => exact hnew

section Finished
variable {b : Builder} {space : TypeSpace} {types : List (String × Value)}

theorem standard_build (hb : b.Grown) {κ : Type} [Kind κ] (hκ : space.StandsFor κ)
    (h : b.Offers space types) (hgenuine : Genuine space types) : b.build.Standard space κ where
  name name t ht := (entity_of_find? hb ht).1
  typeLike name t ht := (entity_of_find? hb ht).2
  parentName k t ht := by
    cases hdefinition : OrderedMap.lookup (Kind.typeName k) types.reverse with
    | none =>
      rw [OrderedMap.lookup_eq_none, List.map_reverse, List.mem_reverse] at hdefinition
      rw [(h.find? _).2 hdefinition] at ht
      cases ht
    | some definition =>
      obtain ⟨t', ht', hdepicts⟩ := (h.find? _).1 definition hdefinition
      cases ht.symm.trans ht'
      have hmem := List.mem_reverse.mp (OrderedMap.mem_of_lookup_eq_some hdefinition)
      have hbuiltIn := space.lookup_builtIn (hgenuine _ hmem (hκ.declared k))
      rw [hdepicts.parentName?, ← hκ.supertype k, hbuiltIn]
      rfl

end Finished

/-! ### Instances and relations -/

theorem mem_of_typeRef_foldl {refs : List (EntityId × EntityId)} {entities : Array Entity}
    {i t : EntityId} (h : ((refs.foldl assign entities)[i]?.getD default).typeRef = some t) :
    (i, t) ∈ refs ∨ (entities[i]?.getD default).typeRef = some t := by
  induction refs generalizing entities with
  | nil => exact .inr h
  | cons ref rest ih =>
    rcases ih h with h | h
    · exact .inl (List.mem_cons_of_mem _ h)
    · rw [assign, Array.getElem?_modify] at h
      by_cases hi : ref.1 = i
      · rw [if_pos hi] at h
        cases he : entities[i]? with
        | none =>
          rw [he] at h
          cases h
        | some e =>
          rw [he] at h
          exact .inl (List.mem_cons.mpr (.inl (Prod.ext hi.symm (Option.some.inj h).symm)))
      · rw [if_neg hi] at h
        exact .inr h

theorem instances_build (b : Builder) :
    b.build.instances = (b.namespaceIndex Key.components).values := by
  unfold instances declared namespaceIndex EntityGraph.child? child? children
  rw [children_build]
  cases (b.entity root).children.get? Key.components with
  | none => rfl
  | some c => exact congrArg OrderedMap.values (b.children_build c)

theorem mem_instanceRef {b : Builder} {types : OrderedMap String EntityId} {i j t : EntityId} :
    (i, t) ∈ b.instanceRef types j ↔ i = j ∧ ∃ name,
      ((b.child? j Key.type).bind fun c => (b.entity c).value) = some name ∧
        types.get? name.text = some t := by
  rw [instanceRef, List.mem_flatMap]
  simp only [Option.mem_toList, List.mem_map, Prod.mk.injEq]
  constructor
  · rintro ⟨name, hname, _, ht, rfl, rfl⟩
    exact ⟨rfl, name, hname, ht⟩
  · rintro ⟨rfl, name, hname, ht⟩
    exact ⟨name, hname, t, ht, rfl, rfl⟩

theorem mem_relationRefs {b : Builder} {types : OrderedMap String EntityId} {i r t : EntityId}
    (h : (r, t) ∈ b.relationRefs types i) :
    r ∈ b.build.relationsBelow i ∧ ∃ name, types.get? name = some t := by
  unfold relationRefs at h
  split at h
  case h_1 => cases h
  case h_2 relations hrelations =>
    obtain ⟨entry, hentry, h⟩ := List.mem_flatMap.mp h
    obtain ⟨⟨name, r'⟩, hr', h⟩ := List.mem_filterMap.mp h
    obtain ⟨t', ht', heq⟩ := Option.map_eq_some_iff.mp h
    cases heq
    refine ⟨List.mem_flatMap.mpr ⟨entry, ?_, ?_⟩, name, ht'⟩
    · have hchild : b.build.child? i Key.relations = some relations := by
        rw [EntityGraph.child?, children_build]
        exact hrelations
      rw [declared, hchild]
      show entry ∈ (b.build.entity relations).children.values
      rwa [children_build]
    · rw [children, children_build]
      exact OrderedMap.mem_values.mpr ⟨name, hr'⟩

/-- An entity with a type is an instance with a component type, or a relation of one with a
relation type. -/
theorem exists_of_typeRef (b : Builder) (hb : b.Grown) {i t : EntityId}
    (h : (b.build.entity i).typeRef = some t) :
    (i ∈ b.build.instances ∧ ∃ name, b.build.componentType? name = some t) ∨
      ∃ j ∈ b.build.instances, i ∈ b.build.relationsBelow j ∧
        ∃ name, b.build.relationType? name = some t := by
  rcases mem_of_typeRef_foldl h with hmem | hold
  · obtain ⟨j, hj, href⟩ := List.mem_flatMap.mp hmem
    rw [← instances_build] at hj
    rcases List.mem_append.mp href with href | href
    · obtain ⟨rfl, name, _, ht⟩ := mem_instanceRef.mp href
      exact .inl ⟨hj, name.text, ht⟩
    · obtain ⟨hr, ht⟩ := mem_relationRefs href
      exact .inr ⟨j, hj, hr, ht⟩
  · have hnone : (b.entity i).typeRef = some t := hold
    rw [hb.typeRef] at hnone
    cases hnone

end Builder

theorem exists_of_mem_declared {g : EntityGraph} {i c : EntityId} {container : String}
    (h : c ∈ g.declared i container) : ∃ p name, (container, p) ∈ (g.entity i).children.toList ∧
      (name, c) ∈ (g.entity p).children.toList := by
  unfold declared at h
  split at h
  case h_1 p hp =>
    obtain ⟨name, hc⟩ := OrderedMap.mem_values.mp h
    exact ⟨p, name, OrderedMap.get?_eq_some.mp hp, hc⟩
  case h_2 => cases h

/-- No instance is a relation of one. -/
theorem notMem_relationsBelow {g : EntityGraph} (h : IsTree g.entity) {i j : EntityId}
    (hi : i ∈ g.instances) : i ∉ g.relationsBelow j := by
  intro hr
  obtain ⟨components, _, hcomponents, hi⟩ := exists_of_mem_declared hi
  obtain ⟨entry, hentry, hr⟩ := List.mem_flatMap.mp hr
  obtain ⟨relations, _, hrelations, hentry⟩ := exists_of_mem_declared hentry
  obtain ⟨_, hr⟩ := OrderedMap.mem_values.mp hr
  -- The entity has one parent, so what is above it is the same both ways.
  cases (h _ _ _ hi).2.2.symm.trans (h _ _ _ hr).2.2
  cases (h _ _ _ hcomponents).2.2.symm.trans (h _ _ _ hentry).2.2
  exact absurd (h _ _ _ hrelations).1 (Nat.not_lt_zero j)

end EntityGraph

/-- **Kinds agree with types.** If a document declares no type under the name of a built-in one,
then for each instance that becomes a component, the component's kind is another kind or refines
it exactly if the type of that one is in the component's chain of types. The same holds for
relations. The generic kinds do not count: an instance whose chain meets no built-in type has the
generic kind, but the type of this kind is not in its chain. -/
theorem kinds_agree {v : Value} {g : EntityGraph} {entries : List (Value × Value)}
    (h : EntityGraph.ofValue true v = .ok g) (hentries : EntityGraph.topLevel v = .ok entries)
    (hown : ∀ space : TypeSpace, ¬ space.Redeclares entries) :
    (∀ i ∈ g.instances, ∀ c, Component.ofEntity g i = .ok c →
      ∀ k : ComponentKind, k ≠ .generic → (c.isA k ↔ k.typeName ∈ c.chain)) ∧
    ∀ i ∈ g.instances, ∀ r ∈ g.relationsBelow i, ∀ source relation,
      Model.relationOf g source r = .ok relation →
      ∃ types, g.chainOf r = .ok types ∧
        ∀ k : RelationKind, k ≠ .generic →
          (Kind.isA relation.kind k ↔ k.typeName ∈ g.names types) := by
  obtain ⟨b, entries', hb, rfl, hentries', hoffers⟩ :=
    EntityGraph.Builder.exists_offers_of_ofValue h
  cases hentries.symm.trans hentries'
  have hgenuine (space : TypeSpace) : EntityGraph.Builder.Genuine space
      ((space.given entries).foldl TypeSpace.joined space.builtIn) :=
    EntityGraph.Builder.genuine_foldl_joined (fun _ hfield _ => hfield)
      fun name hname hbuiltIn => hown space ⟨name, hname, hbuiltIn⟩
  have htree := hb.isTree_build
  constructor
  · intro i hi c hc k hk
    obtain ⟨_, types, htyped, hchain, hkind⟩ := Component.ofEntity_eq_ok hc
    obtain ⟨t, ht, htypes⟩ := htyped
    rcases EntityGraph.Builder.exists_of_typeRef b hb ht with ⟨_, name, hname⟩ | ⟨j, _, hr, _⟩
    · have hstandard := EntityGraph.Builder.standard_build hb component_standsFor
        (hoffers .component) (hgenuine .component)
      rw [Component.isA, hkind, hchain]
      exact hstandard.isA_iff hname htypes hk
    · exact absurd hr (EntityGraph.notMem_relationsBelow htree hi)
  · intro i hi r hr source relation hrelation
    obtain ⟨_, _, _, types, htyped, hkind⟩ := Model.relationOf_eq_ok hrelation
    refine ⟨types, EntityGraph.chainOf_eq_ok.mpr htyped, fun k hk => ?_⟩
    obtain ⟨t, ht, htypes⟩ := htyped
    rcases EntityGraph.Builder.exists_of_typeRef b hb ht with
      ⟨hinstance, _⟩ | ⟨_, _, _, name, hname⟩
    · exact absurd hr (EntityGraph.notMem_relationsBelow htree hinstance)
    · have hstandard := EntityGraph.Builder.standard_build hb relation_standsFor
        (hoffers .relation) (hgenuine .relation)
      rw [hkind]
      exact hstandard.isA_iff hname htypes hk

/-- A component and a relation of types that the document declares below built-in ones. -/
def subtypedEntries : List (Value × Value) :=
  BuiltIn.entries
    [(Key.components, BuiltIn.mapping
        [("vm", BuiltIn.mapping [(Key.type, .string "compute")]),
          ("app", BuiltIn.mapping [(Key.type, .string "app_server"),
            (Key.relations, .sequence [BuiltIn.mapping [("runs_on", .string "vm")]])])]),
      (Key.componentTypes, BuiltIn.mapping
        [("app_server", BuiltIn.mapping [BuiltIn.refining "tomcat"])]),
      (Key.relationTypes, BuiltIn.mapping
        [("runs_on", BuiltIn.mapping [BuiltIn.refining "hosted_on"])])]

theorem kinds_agree_subtyped : ∃ g i c r relation,
    EntityGraph.ofValue true (.mapping subtypedEntries) = .ok g ∧ i ∈ g.instances ∧
    Component.ofEntity g i = .ok c ∧ "app_server" ∈ c.chain ∧ c.isA .webServer ∧
    ¬ c.isA .dbms ∧ r ∈ g.relationsBelow i ∧ Model.relationOf g "app" r = .ok relation ∧
    relation.name = "runs_on" ∧ ∃ types, g.chainOf r = .ok types ∧
      (Kind.isA relation.kind .hostedOn ↔ "hosted_on" ∈ g.names types) := by
  have hread : (EntityGraph.ofValue true (.mapping subtypedEntries)).map (fun g =>
      g.instances.map fun i => ((Component.ofEntity g i).toOption.map Component.chain,
        (g.relationsBelow i).map fun r =>
          (Model.relationOf g "app" r).toOption.map Relation.name)) =
      .ok [(some ["compute", "base"], []),
        (some ["app_server", "tomcat", "web_server", "software_component", "base"],
          [some "runs_on"])] := by
    decide +kernel
  obtain ⟨g, hg, hall⟩ := map_eq_ok.mp hread
  have hown : ∀ space : TypeSpace, ¬ space.Redeclares subtypedEntries := fun space => by
    unfold TypeSpace.Redeclares
    cases space <;> decide
  obtain ⟨hcomponents, hrelations⟩ := kinds_agree hg rfl hown
  obtain ⟨i, hi, heq⟩ := List.mem_map.mp (hall ▸ List.mem_cons_of_mem _ List.mem_cons_self)
  obtain ⟨hchain, hnames⟩ := Prod.mk.inj heq
  obtain ⟨c, hc, hchain⟩ := Option.map_eq_some_iff.mp hchain
  obtain ⟨r, hr, hname⟩ := List.mem_map.mp (hnames ▸ List.mem_singleton_self _)
  obtain ⟨relation, hrelation, hname⟩ := Option.map_eq_some_iff.mp hname
  have hc := toOption_eq_some.mp hc
  have hrelation := toOption_eq_some.mp hrelation
  have hagree := hcomponents i hi c hc
  obtain ⟨types, htypes, hkind⟩ := hrelations i hi r hr "app" relation hrelation
  rw [hchain] at hagree
  exact ⟨g, i, c, r, relation, hg, hi, hc, by rw [hchain]; decide,
    (hagree .webServer (by decide)).mpr (by decide), fun hdbms => absurd
      ((hagree .dbms (by decide)).mp hdbms) (by decide), hr, hrelation, hname, types, htypes,
    hkind .hostedOn (by decide)⟩

end Provision
