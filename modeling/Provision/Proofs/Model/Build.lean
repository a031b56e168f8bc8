import Provision.Model.Build
import Provision.Proofs.Entity.Grown
import Provision.Proofs.Topology.Built

/-! Which entity graphs are models.

The builder reads instance by instance, then looks up the targets, then counts hosts. A
graph that was read from a document gets through all three exactly if it is well-formed.
Since no two instances have one name, every instance becomes a component of its own, and
the number of a component is the place of its instance. -/
namespace Provision
open Yaml (Value)

namespace EntityGraph

/-! ### What a graph says -/

/-- The instances, in the order of the document. -/
def instances (g : EntityGraph) : List EntityId := g.declared root Key.components

/-- The relations of an instance, entry by entry. -/
def relationsBelow (g : EntityGraph) (i : EntityId) : List EntityId :=
  (g.declared i Key.relations).flatMap g.children

/-- All relations, each behind the instance that has it, in the order of the document. -/
def relationEntries (g : EntityGraph) : List (EntityId × EntityId) :=
  g.instances.flatMap fun i => (g.relationsBelow i).map fun r => (i, r)

/-- An entity refers to a type, whose chain resolves. -/
def Typed (g : EntityGraph) (id : EntityId) (types : List EntityId) : Prop :=
  ∃ t, (g.entity id).typeRef = some t ∧ g.typeChain t = .ok types

/-- The target of a relation: its own value, else that of its child `target`. -/
def targetText? (g : EntityGraph) (r : EntityId) : Option String :=
  ((g.entity r).value.map Scalar.text).or (g.childText? r Key.target)

/-- Whether the kind of a relation is that of a relation to a host. -/
def leadsToHost (g : EntityGraph) (r : EntityId) : Bool :=
  match g.chainOf r with
  | .ok types => Kind.isA (Kind.resolve (g.names types) : RelationKind) .hostedOn
  | .error _ => false

/-- What makes a graph a model. -/
structure WellFormed (g : EntityGraph) : Prop where
  typed : ∀ i ∈ g.instances, ∃ types, g.Typed i types
  entries : ∀ i ∈ g.instances, ∀ entry ∈ g.declared i Key.relations, g.children entry ≠ []
  relationsTyped : ∀ i ∈ g.instances, ∀ r ∈ g.relationsBelow i, ∃ types, g.Typed r types
  /-- Every relation has a target, which is the name of an instance before or after it. -/
  targets : ∀ i ∈ g.instances, ∀ r ∈ g.relationsBelow i, ∃ target, g.targetText? r = some target ∧
    ∃ j ∈ g.instances, (g.entity j).name = target
  oneHost : ∀ i ∈ g.instances, ((g.relationsBelow i).filter g.leadsToHost).length ≤ 1

theorem chainOf_eq_ok {g : EntityGraph} {id : EntityId} {types : List EntityId} :
    g.chainOf id = .ok types ↔ g.Typed id types := by
  unfold chainOf Typed
  cases (g.entity id).typeRef with
  | none => simp
  | some t => simp

theorem leadsToHost_of_typed {g : EntityGraph} {r : EntityId} {types : List EntityId}
    (h : g.Typed r types) :
    g.leadsToHost r = Kind.isA (Kind.resolve (g.names types) : RelationKind) .hostedOn := by
  rw [leadsToHost, chainOf_eq_ok.mpr h]

end EntityGraph

open EntityGraph

namespace Component

theorem ofEntity_eq_ok {g : EntityGraph} {i : EntityId} {c : Component}
    (h : ofEntity g i = .ok c) :
    c.name = (g.entity i).name ∧ ∃ types, g.Typed i types ∧ c.chain = g.names types ∧
      c.kind = Kind.resolve (g.names types) := by
  obtain ⟨types, htypes, h⟩ := bind_eq_ok.mp h
  cases h
  exact ⟨rfl, types, chainOf_eq_ok.mp htypes, rfl, rfl⟩

theorem exists_ofEntity {g : EntityGraph} {i : EntityId} :
    (∃ c, ofEntity g i = .ok c) ↔ ∃ types, g.Typed i types := by
  constructor
  · rintro ⟨c, h⟩
    obtain ⟨_, types, htypes, _⟩ := ofEntity_eq_ok h
    exact ⟨types, htypes⟩
  · rintro ⟨types, htypes⟩
    exact ⟨_, bind_eq_ok.mpr ⟨types, chainOf_eq_ok.mpr htypes, rfl⟩⟩

end Component

namespace Model

/-! ### Relations -/

theorem relationOf_eq_ok {g : EntityGraph} {source : String} {r : EntityId} {rel : Relation}
    (h : relationOf g source r = .ok rel) :
    rel.name = (g.entity r).name ∧ rel.source = source ∧ g.targetText? r = some rel.target ∧
      ∃ types, g.Typed r types ∧ rel.kind = Kind.resolve (g.names types) := by
  unfold relationOf at h
  cases htarget : g.targetText? r with
  | none =>
    rw [targetText?] at htarget
    simp only [htarget] at h
    cases h
  | some target =>
    rw [targetText?] at htarget
    simp only [htarget] at h
    obtain ⟨types, htypes, h⟩ := bind_eq_ok.mp h
    cases h
    exact ⟨rfl, rfl, rfl, types, chainOf_eq_ok.mp htypes, rfl⟩

theorem exists_relationOf {g : EntityGraph} {source : String} {r : EntityId} :
    (∃ rel, relationOf g source r = .ok rel) ↔
      (∃ target, g.targetText? r = some target) ∧ ∃ types, g.Typed r types := by
  constructor
  · rintro ⟨rel, h⟩
    obtain ⟨_, _, htarget, types, htypes, _⟩ := relationOf_eq_ok h
    exact ⟨⟨_, htarget⟩, types, htypes⟩
  · rintro ⟨⟨target, htarget⟩, types, htypes⟩
    unfold relationOf
    rw [targetText?] at htarget
    simp only [htarget]
    exact ⟨_, bind_eq_ok.mpr ⟨types, chainOf_eq_ok.mpr htypes, rfl⟩⟩

theorem leadsToHost_of_relationOf {g : EntityGraph} {source : String} {r : EntityId}
    {rel : Relation} (h : relationOf g source r = .ok rel) :
    g.leadsToHost r = Kind.isA rel.kind .hostedOn := by
  obtain ⟨_, _, _, types, htypes, hkind⟩ := relationOf_eq_ok h
  rw [leadsToHost_of_typed htypes, hkind]

theorem relationsOfEntry_eq_ok {g : EntityGraph} {source : String} {entry : EntityId}
    {rels : List Relation} :
    relationsOfEntry g source entry = .ok rels ↔ g.children entry ≠ [] ∧
      List.Forall₂ (fun r rel => relationOf g source r = .ok rel) (g.children entry) rels := by
  unfold relationsOfEntry
  cases g.children entry with
  | nil => simp
  | cons r rest => simp only [mapM_eq_ok, ne_eq, reduceCtorEq, not_false_eq_true, true_and]

/-- The relations of an instance are those of its entries, none of which may be empty. -/
theorem relationsOf_eq_ok {g : EntityGraph} {source : String} {i : EntityId}
    {rels : List Relation} :
    relationsOf g source i = .ok rels ↔
      (∀ entry ∈ g.declared i Key.relations, g.children entry ≠ []) ∧
        List.Forall₂ (fun r rel => relationOf g source r = .ok rel) (g.relationsBelow i) rels := by
  have hentries : relationsOf g source i = .ok rels ↔ ∃ relss,
      (g.declared i Key.relations).mapM (relationsOfEntry g source) = .ok relss ∧
        relss.flatten = rels := by
    unfold relationsOf declared
    cases g.child? i Key.relations with
    | none =>
      show Except.ok [] = .ok rels ↔ ∃ relss, Except.ok [] = .ok relss ∧ _
      simp [eq_comm]
    | some relations =>
      rw [bind_eq_ok]
      simp [pure, Except.pure]
  rw [hentries, relationsBelow, forall₂_flatMap]
  simp only [mapM_eq_ok, relationsOfEntry_eq_ok, List.forall₂_and_left, and_assoc, exists_and_left]

/-! ### Reading the instances -/

/-- What an instance gives: a component and its relations. -/
abbrev Part := Component × List Relation

/-- A part is read from an instance. -/
def ReadAs (g : EntityGraph) (i : EntityId) (part : Part) : Prop :=
  Component.ofEntity g i = .ok part.1 ∧ relationsOf g part.1.name i = .ok part.2

/-- The relations of parts that are numbered from some number on. -/
def pendingFrom : Nat → List Part → List Pending
  | _, [] => []
  | n, part :: rest =>
    (part.2.map fun relation => { source := n, relation }) ++ pendingFrom (n + 1) rest

theorem ReadAs.name {g : EntityGraph} {i : EntityId} {part : Part} (h : ReadAs g i part) :
    part.1.name = (g.entity i).name :=
  (Component.ofEntity_eq_ok h.1).1

theorem find?_eq_none {t : Topology} {name : String} :
    t.find? name = none ↔ name ∉ t.components.toList.map Component.name := by
  simp [Topology.find?, Array.findIdx?_eq_none_iff]

theorem addComponent_new {t : Topology} {c : Component}
    (h : c.name ∉ t.components.toList.map Component.name) :
    t.addComponent c = (t.size, { t with components := t.components.push c }) := by
  rw [Topology.addComponent, find?_eq_none.mpr h]

theorem addInstance_eq_ok {g : EntityGraph} {t : Topology} {pending : List Pending}
    {state : Topology × List Pending} {i : EntityId}
    (hnew : (g.entity i).name ∉ t.components.toList.map Component.name) :
    addInstance g (t, pending) i = .ok state ↔ ∃ part, ReadAs g i part ∧
      state = ({ t with components := t.components.push part.1 },
        pending ++ part.2.map fun relation => { source := t.size, relation }) := by
  unfold addInstance
  rw [bind_eq_ok]
  constructor
  · rintro ⟨c, hc, h⟩
    rw [addComponent_new (by rwa [(Component.ofEntity_eq_ok hc).1])] at h
    obtain ⟨rels, hrels, h⟩ := bind_eq_ok.mp h
    cases h
    exact ⟨(c, rels), ⟨hc, hrels⟩, rfl⟩
  · rintro ⟨⟨c, rels⟩, ⟨hc, hrels⟩, rfl⟩
    refine ⟨c, hc, ?_⟩
    rw [addComponent_new (by rwa [(Component.ofEntity_eq_ok hc).1])]
    exact bind_eq_ok.mpr ⟨rels, hrels, rfl⟩

/-- Reading instances of different names adds the component of each. -/
theorem foldlM_addInstance {g : EntityGraph} {l : List EntityId}
    {t : Topology} {pending : List Pending} {state : Topology × List Pending}
    (hnames : (t.components.toList.map Component.name ++ l.map fun i => (g.entity i).name).Nodup) :
    l.foldlM (addInstance g) (t, pending) = .ok state ↔
      ∃ parts, List.Forall₂ (ReadAs g) l parts ∧
        state = ({ t with components := t.components ++ (parts.map Prod.fst).toArray },
          pending ++ pendingFrom t.size parts) := by
  induction l generalizing t pending with
  | nil =>
    show Except.ok (t, pending) = .ok state ↔ _
    simp [pendingFrom, eq_comm]
  | cons i rest ih =>
    have hnew : (g.entity i).name ∉ t.components.toList.map Component.name := fun h =>
      (List.nodup_append.mp hnames).2.2 _ h _ List.mem_cons_self rfl
    have hrest (part : Part) (hpart : ReadAs g i part) :
        (({ t with components := t.components.push part.1 } : Topology).components.toList.map
          Component.name ++ rest.map fun i => (g.entity i).name).Nodup := by
      simpa [hpart.name] using hnames
    rw [List.foldlM_cons, bind_eq_ok]
    constructor
    · rintro ⟨_, hi, h⟩
      obtain ⟨part, hpart, rfl⟩ := (addInstance_eq_ok hnew).mp hi
      obtain ⟨parts, hparts, rfl⟩ := (ih (hrest part hpart)).mp h
      refine ⟨part :: parts, .cons hpart hparts, ?_⟩
      simp [pendingFrom, Topology.size]
    · rintro ⟨_, _ | ⟨hpart, hparts⟩, rfl⟩
      refine ⟨_, (addInstance_eq_ok hnew).mpr ⟨_, hpart, rfl⟩, ?_⟩
      rw [ih (hrest _ hpart)]
      refine ⟨_, hparts, ?_⟩
      simp [pendingFrom, Topology.size]

/-! ### Looking up the targets -/

/-- What an edge was before its target was looked up. -/
def ofEdge (e : Edge) : Pending := { source := e.source, relation := e.relation }

/-- Connecting adds an edge for each relation, to the component that it names. -/
theorem foldlM_connect {pending : List Pending} {t t' : Topology} :
    pending.foldlM connect t = .ok t' ↔ ∃ edges : List Edge, edges.map ofEdge = pending ∧
      (∀ e ∈ edges, t.find? e.relation.target = some e.target) ∧
        t' = { t with edges := t.edges ++ edges.toArray } := by
  induction pending generalizing t with
  | nil =>
    show Except.ok t = .ok t' ↔ _
    simp [eq_comm]
  | cons p rest ih =>
    rw [List.foldlM_cons, bind_eq_ok]
    constructor
    · rintro ⟨t₁, hp, h⟩
      unfold connect at hp
      split at hp
      case h_1 target htarget =>
        cases hp
        obtain ⟨edges, rfl, hedges, rfl⟩ := ih.mp h
        refine ⟨{ source := p.source, target, relation := p.relation } :: edges, rfl, ?_, ?_⟩
        · exact List.forall_mem_cons.mpr ⟨htarget, hedges⟩
        · simp [Topology.addRelation]
      case h_2 => cases hp
    · rintro ⟨_ | ⟨e, edges⟩, hmap, hedges, rfl⟩
      · cases hmap
      · cases hmap
        obtain ⟨he, hedges⟩ := List.forall_mem_cons.mp hedges
        refine ⟨(t.addRelation e.source e.target e.relation).2, ?_, ih.mpr ⟨edges, rfl, hedges, ?_⟩⟩
        · simp only [connect, ofEdge, he]
        · simp [Topology.addRelation]

theorem exists_edges {pending : List Pending} {t : Topology}
    (h : ∀ p ∈ pending, p.relation.target ∈ t.components.toList.map Component.name) :
    ∃ edges : List Edge, edges.map ofEdge = pending ∧
      ∀ e ∈ edges, t.find? e.relation.target = some e.target := by
  induction pending with
  | nil => exact ⟨[], rfl, fun e he => absurd he List.not_mem_nil⟩
  | cons p rest ih =>
    obtain ⟨hp, hrest⟩ := List.forall_mem_cons.mp h
    obtain ⟨edges, rfl, hedges⟩ := ih hrest
    obtain ⟨target, htarget⟩ := Option.ne_none_iff_exists'.mp fun hnone => find?_eq_none.mp hnone hp
    exact ⟨{ source := p.source, target, relation := p.relation } :: edges, rfl,
      List.forall_mem_cons.mpr ⟨htarget, hedges⟩⟩

/-! ### Counting hosts -/

theorem checkHosts_eq_ok {t : Topology} :
    checkHosts t = .ok () ↔
      ∀ id < t.size, ((t.outgoing id).filter fun e => e.isA .hostedOn).length ≤ 1 := by
  rw [checkHosts, forM_eq_ok]
  refine forall_congr' fun id => ?_
  rw [Topology.ids, List.mem_range, hostNames, List.length_map]
  refine imp_congr_right fun _ => ?_
  split
  case isTrue h =>
    constructor
    · intro h'
      cases h'
    · intro h'
      omega
  case isFalse h => exact ⟨fun _ => Nat.le_of_not_lt h, fun _ => rfl⟩

theorem le_source_of_mem {n : Nat} {parts : List Part} {p : Pending}
    (h : p ∈ pendingFrom n parts) : n ≤ p.source := by
  induction parts generalizing n with
  | nil => exact absurd h List.not_mem_nil
  | cons part rest ih =>
    rcases List.mem_append.mp h with h | h
    · obtain ⟨_, _, rfl⟩ := List.mem_map.mp h
      exact Nat.le_refl n
    · exact Nat.le_of_succ_le (ih h)

/-- The relations with a source are those of the part with its number. -/
theorem filter_pendingFrom {n k : Nat} {parts : List Part} {part : Part}
    (h : parts[k]? = some part) :
    ((pendingFrom n parts).filter fun p => p.source == n + k) =
      part.2.map fun relation => { source := n + k, relation } := by
  induction parts generalizing n k with
  | nil => simp at h
  | cons first rest ih =>
    rw [pendingFrom, List.filter_append]
    cases k with
    | zero =>
      cases h
      have hrest : ((pendingFrom (n + 1) rest).filter fun p => p.source == n + 0) = [] := by
        refine List.filter_eq_nil_iff.mpr fun p hp => ?_
        have hle := le_source_of_mem hp
        simp only [Nat.add_zero, beq_iff_eq]
        omega
      rw [hrest, List.append_nil, List.filter_map, List.filter_eq_self.mpr]
      · rfl
      · simp
    | succ k =>
      have hfirst : ((first.2.map fun relation => ({ source := n, relation } : Pending)).filter
          fun p => p.source == n + (k + 1)) = [] := by
        simp
      rw [hfirst, List.nil_append, show n + (k + 1) = n + 1 + k by omega]
      exact ih h

/-- The relations follow the entries, and the source of each is the place of its instance. -/
theorem forall₂_pendingFrom {g : EntityGraph} {l : List EntityId} {parts : List Part} (n : Nat)
    (h : List.Forall₂ (ReadAs g) l parts) :
    List.Forall₂ (fun entry p =>
        relationOf g (g.entity entry.1).name entry.2 = .ok p.relation ∧ n ≤ p.source ∧
          l[p.source - n]? = some entry.1)
      (l.flatMap fun i => (g.relationsBelow i).map fun r => (i, r)) (pendingFrom n parts) := by
  induction h generalizing n with
  | nil => exact .nil
  | @cons i part rest parts hpart _ ih =>
    rw [List.flatMap_cons, pendingFrom]
    refine List.rel_append ?_ ?_
    · rw [List.forall₂_map_left_iff, List.forall₂_map_right_iff]
      refine (relationsOf_eq_ok.mp hpart.2).2.imp fun r rel hrel => ⟨?_, Nat.le_refl n, ?_⟩
      · rwa [hpart.name] at hrel
      · rw [Nat.sub_self]
        rfl
    · refine (ih (n + 1)).imp fun entry p => ?_
      rintro ⟨hrel, hle, hi⟩
      have hsub {k : Nat} (hk : n + 1 ≤ k) : k - n = k - (n + 1) + 1 := by omega
      refine ⟨hrel, Nat.le_of_succ_le hle, ?_⟩
      rwa [hsub hle]

/-! ### The whole -/

/-- The components of parts, without edges. -/
def unconnected (parts : List Part) : Topology := { components := (parts.map Prod.fst).toArray }

theorem names_unconnected {g : EntityGraph} {l : List EntityId} {parts : List Part}
    (h : List.Forall₂ (ReadAs g) l parts) :
    (unconnected parts).components.toList.map Component.name =
      l.map fun i => (g.entity i).name := by
  rw [unconnected, List.map_map]
  induction h with
  | nil => rfl
  | cons hpart _ ih =>
    rw [List.map_cons, List.map_cons, ← ih, ← hpart.name]
    rfl

/-- What the builder makes of a graph that gives some parts. -/
structure MadeOf (g : EntityGraph) (parts : List Part) (t : Topology) : Prop where
  read : List.Forall₂ (ReadAs g) g.instances parts
  components : t.components = (unconnected parts).components
  edges : t.edges.toList.map ofEdge = pendingFrom 0 parts
  targets : ∀ e ∈ t.edges, t.find? e.relation.target = some e.target

/-- Reading all instances succeeds exactly if each of them is read. -/
theorem read_eq_ok {g : EntityGraph} {state : Topology × List Pending}
    (hnames : (g.instances.map fun i => (g.entity i).name).Nodup) :
    g.instances.foldlM (addInstance g) (.empty, []) = .ok state ↔
      ∃ parts, List.Forall₂ (ReadAs g) g.instances parts ∧
        state = (unconnected parts, pendingFrom 0 parts) := by
  rw [foldlM_addInstance (by simpa [Topology.empty] using hnames)]
  simp [Topology.empty, unconnected, Topology.size]

/-- Connecting gives every pending relation an edge to the component that it names. -/
theorem connect_eq_ok {parts : List Part} {t : Topology} :
    (pendingFrom 0 parts).foldlM connect (unconnected parts) = .ok t ↔
      t.components = (unconnected parts).components ∧
        t.edges.toList.map ofEdge = pendingFrom 0 parts ∧
        ∀ e ∈ t.edges, t.find? e.relation.target = some e.target := by
  rw [foldlM_connect]
  constructor
  · intro h
    obtain ⟨edges, hmap, htargets, rfl⟩ := h
    refine ⟨rfl, by simpa [unconnected] using hmap, fun e he => htargets e ?_⟩
    simpa [unconnected] using he
  · intro h
    obtain ⟨hcomponents, hmap, htargets⟩ := h
    obtain ⟨components, edges⟩ := t
    cases hcomponents
    refine ⟨edges.toList, hmap, fun e he => htargets e (Array.mem_def.mpr he), ?_⟩
    simp [unconnected]

theorem build_eq_ok {g : EntityGraph} {name : String} {m : Model}
    (hnames : (g.instances.map fun i => (g.entity i).name).Nodup) :
    build name g = .ok m ↔ ∃ parts t, MadeOf g parts t ∧
      (∀ id < t.size, ((t.outgoing id).filter fun e => e.isA .hostedOn).length ≤ 1) ∧
      m = { name, description := g.childText? root Key.description, topology := t } := by
  show (g.instances.foldlM (addInstance g) (.empty, []) >>= _) = _ ↔ _
  rw [bind_eq_ok]
  constructor
  · intro h
    obtain ⟨_, h₁, h⟩ := h
    obtain ⟨parts, hparts, rfl⟩ := (read_eq_ok hnames).mp h₁
    obtain ⟨t, h₂, h⟩ := bind_eq_ok.mp h
    obtain ⟨hcomponents, hmap, htargets⟩ := connect_eq_ok.mp h₂
    obtain ⟨_, hhosts, h⟩ := bind_eq_ok.mp h
    cases h
    exact ⟨parts, t, ⟨hparts, hcomponents, hmap, htargets⟩, checkHosts_eq_ok.mp hhosts, rfl⟩
  · intro h
    obtain ⟨parts, t, ⟨hparts, hcomponents, hmap, htargets⟩, hhosts, rfl⟩ := h
    exact ⟨_, (read_eq_ok hnames).mpr ⟨parts, hparts, rfl⟩, bind_eq_ok.mpr ⟨t,
      connect_eq_ok.mpr ⟨hcomponents, hmap, htargets⟩,
      bind_eq_ok.mpr ⟨(), checkHosts_eq_ok.mpr hhosts, rfl⟩⟩⟩

namespace MadeOf

variable {g : EntityGraph} {parts : List Part} {t : Topology}

theorem toList_components (h : MadeOf g parts t) : t.components.toList = parts.map Prod.fst := by
  rw [h.components, unconnected]

theorem size_eq (h : MadeOf g parts t) : t.size = g.instances.length := by
  rw [Topology.size, ← Array.length_toList, h.toList_components, List.length_map,
    h.read.length_eq]

/-- The components are the instances. -/
theorem forall₂_components (h : MadeOf g parts t) :
    List.Forall₂ (fun i c => Component.ofEntity g i = .ok c) g.instances t.components.toList := by
  rw [h.toList_components, List.forall₂_map_right_iff]
  exact h.read.imp fun _ _ hpart => hpart.1

/-- The edges are the relations. -/
theorem forall₂_edges (h : MadeOf g parts t) :
    List.Forall₂ (fun entry e => relationOf g (g.entity entry.1).name entry.2 = .ok e.relation ∧
      g.instances[e.source]? = some entry.1) g.relationEntries t.edges.toList := by
  have hall := forall₂_pendingFrom 0 h.read
  rw [← h.edges, List.forall₂_map_right_iff] at hall
  refine hall.imp fun entry e => ?_
  rintro ⟨hrel, _, hi⟩
  exact ⟨hrel, hi⟩

/-- A component stands on as many hosts as its instance has relations to hosts. -/
theorem length_hosts (h : MadeOf g parts t) {k : Nat} {i : EntityId}
    (hi : g.instances[k]? = some i) :
    ((t.outgoing k).filter fun e => e.isA .hostedOn).length =
      ((g.relationsBelow i).filter g.leadsToHost).length := by
  obtain ⟨part, hpart, hread⟩ := getElem?_of_forall₂ h.read hi
  have hrels := (relationsOf_eq_ok.mp hread.2).2
  have hcount : ((g.relationsBelow i).filter g.leadsToHost).length =
      (part.2.filter fun rel => Kind.isA rel.kind .hostedOn).length :=
    (List.rel_filter (fun r rel hrel => by simp only [leadsToHost_of_relationOf hrel])
      hrels).length_eq
  have hpending : (t.outgoing k).map ofEdge =
      part.2.map fun relation => { source := k, relation } := by
    have hfilter := filter_pendingFrom (n := 0) hpart
    rw [← h.edges, List.filter_map, Nat.zero_add] at hfilter
    exact hfilter
  rw [hcount]
  have hmapped := congrArg (fun l => (l.filter fun p => Kind.isA p.relation.kind .hostedOn).length)
    hpending
  simp only [List.filter_map, List.length_map] at hmapped
  exact hmapped

/-- The ends of an edge have the names that its relation gives them. -/
theorem ends (h : MadeOf g parts t) {e : Edge} (he : e ∈ t.edges) :
    ∃ source target, t.components[e.source]? = some source ∧
      source.name = e.relation.source ∧ t.components[e.target]? = some target ∧
      target.name = e.relation.target := by
  obtain ⟨entry, _, hrel, hi⟩ := exists_mem_of_forall₂ h.forall₂_edges.flip (Array.mem_def.mp he)
  obtain ⟨source, hsource, hread⟩ := getElem?_of_forall₂ h.forall₂_components hi
  have hfound := h.targets e he
  rw [Topology.find?, Array.findIdx?_eq_some_iff_getElem] at hfound
  obtain ⟨hlt, hname, _⟩ := hfound
  refine ⟨source, t.components[e.target], by simpa using hsource, ?_, Array.getElem?_eq_getElem hlt,
    by simpa using hname⟩
  rw [(Component.ofEntity_eq_ok hread).1, (relationOf_eq_ok hrel).2.1]

theorem wellFormed (h : MadeOf g parts t)
    (hhosts : ∀ id < t.size, ((t.outgoing id).filter fun e => e.isA .hostedOn).length ≤ 1) :
    g.WellFormed where
  typed i hi := by
    obtain ⟨c, _, hc⟩ := exists_mem_of_forall₂ h.forall₂_components hi
    exact Component.exists_ofEntity.mp ⟨c, hc⟩
  entries i hi := by
    obtain ⟨part, _, hread⟩ := exists_mem_of_forall₂ h.read hi
    exact (relationsOf_eq_ok.mp hread.2).1
  relationsTyped i hi r hr := by
    obtain ⟨part, _, hread⟩ := exists_mem_of_forall₂ h.read hi
    obtain ⟨rel, _, hrel⟩ := exists_mem_of_forall₂ (relationsOf_eq_ok.mp hread.2).2 hr
    exact (exists_relationOf.mp ⟨rel, hrel⟩).2
  targets i hi r hr := by
    have hentry : (i, r) ∈ g.relationEntries :=
      List.mem_flatMap.mpr ⟨i, hi, List.mem_map.mpr ⟨r, hr, rfl⟩⟩
    obtain ⟨e, he, hrel, _⟩ := exists_mem_of_forall₂ h.forall₂_edges hentry
    obtain ⟨_, target, _, _, htarget, hname⟩ := h.ends (Array.mem_def.mpr he)
    obtain ⟨j, hj, hread⟩ := exists_mem_of_forall₂ h.forall₂_components.flip
      (Array.mem_def.mp (Array.mem_of_getElem? htarget))
    refine ⟨e.relation.target, (relationOf_eq_ok hrel).2.2.1, j, hj, ?_⟩
    rw [← hname, (Component.ofEntity_eq_ok hread).1]
  oneHost i hi := by
    obtain ⟨k, hlt, rfl⟩ := List.mem_iff_getElem.mp hi
    rw [← h.length_hosts (List.getElem?_eq_getElem hlt)]
    exact hhosts k (h.size_eq ▸ hlt)

end MadeOf

theorem exists_readAs {g : EntityGraph} (h : g.WellFormed) {i : EntityId} (hi : i ∈ g.instances) :
    ∃ part, ReadAs g i part := by
  obtain ⟨c, hc⟩ := Component.exists_ofEntity.mpr (h.typed i hi)
  obtain ⟨rels, hrels⟩ : ∃ rels, List.Forall₂ (fun r rel => relationOf g c.name r = .ok rel)
      (g.relationsBelow i) rels := by
    refine exists_forall₂.mpr fun r hr => exists_relationOf.mpr ⟨?_, h.relationsTyped i hi r hr⟩
    obtain ⟨target, htarget, _⟩ := h.targets i hi r hr
    exact ⟨target, htarget⟩
  exact ⟨(c, rels), hc, relationsOf_eq_ok.mpr ⟨h.entries i hi, hrels⟩⟩

theorem exists_madeOf {g : EntityGraph} (h : g.WellFormed) : ∃ parts t, MadeOf g parts t := by
  obtain ⟨parts, hparts⟩ := exists_forall₂.mpr fun i hi => exists_readAs h hi
  have htargets : ∀ p ∈ pendingFrom 0 parts,
      p.relation.target ∈ (unconnected parts).components.toList.map Component.name := by
    intro p hp
    obtain ⟨⟨i, r⟩, hentry, hrel, _⟩ := exists_mem_of_forall₂ (forall₂_pendingFrom 0 hparts).flip hp
    obtain ⟨i, hi, hentry⟩ := List.mem_flatMap.mp hentry
    obtain ⟨r, hr, ⟨⟩⟩ := List.mem_map.mp hentry
    obtain ⟨target, htarget, j, hj, rfl⟩ := h.targets i hi r hr
    have htarget' := (relationOf_eq_ok hrel).2.2.1
    rw [names_unconnected hparts]
    exact List.mem_map.mpr ⟨j, hj, Option.some.inj (htarget.symm.trans htarget')⟩
  obtain ⟨edges, hmap, hedges⟩ := exists_edges htargets
  exact ⟨parts, { unconnected parts with edges := edges.toArray }, hparts, rfl, hmap,
    fun e he => hedges e (by simpa using he)⟩

theorem nodup_names_instances {builtIn : Bool} {v : Value} {g : EntityGraph}
    (hg : ofValue builtIn v = .ok g) : (g.instances.map fun i => (g.entity i).name).Nodup := by
  unfold instances declared
  split
  · exact nodup_names_children hg _
  · exact .nil

/-- **A graph that was read is a model exactly if it is well-formed.** The model has the
instances as components and the relations as edges, both in the order of the document, and
every edge joins the components that its relation names. -/
theorem build_spec {builtIn : Bool} {v : Value} {g : EntityGraph} (hg : ofValue builtIn v = .ok g)
    (name : String) :
    ((∃ m, build name g = .ok m) ↔ g.WellFormed) ∧
      ∀ m, build name g = .ok m →
        List.Forall₂ (fun i c => Component.ofEntity g i = .ok c ∧ c.name = (g.entity i).name ∧
          ∃ types, g.Typed i types ∧ c.kind = Kind.resolve (g.names types))
          g.instances m.topology.components.toList ∧
        List.Forall₂ (fun entry e => g.instances[e.source]? = some entry.1 ∧
          e.relation.source = (g.entity entry.1).name ∧
          e.relation.name = (g.entity entry.2).name ∧
          g.targetText? entry.2 = some e.relation.target ∧
          ∃ types, g.Typed entry.2 types ∧ e.kind = Kind.resolve (g.names types))
          g.relationEntries m.topology.edges.toList ∧
        ∀ e ∈ m.topology.edges, ∃ source target,
          m.topology.components[e.source]? = some source ∧ source.name = e.relation.source ∧
          m.topology.components[e.target]? = some target ∧ target.name = e.relation.target := by
  have hnames := nodup_names_instances hg
  refine ⟨⟨?_, fun h => ?_⟩, fun m h => ?_⟩
  · rintro ⟨m, h⟩
    obtain ⟨parts, t, ht, hhosts, _⟩ := (build_eq_ok hnames).mp h
    exact ht.wellFormed hhosts
  · obtain ⟨parts, t, ht⟩ := exists_madeOf h
    refine ⟨_, (build_eq_ok hnames).mpr ⟨parts, t, ht, fun k hk => ?_, rfl⟩⟩
    have hk : k < g.instances.length := ht.size_eq ▸ hk
    rw [ht.length_hosts (List.getElem?_eq_getElem hk)]
    exact h.oneHost _ (List.getElem_mem hk)
  · obtain ⟨parts, t, ht, _, rfl⟩ := (build_eq_ok hnames).mp h
    refine ⟨ht.forall₂_components.imp fun i c hc => ?_, ht.forall₂_edges.imp fun entry e => ?_,
      fun e he => ht.ends he⟩
    · obtain ⟨hname, types, htypes, _, hkind⟩ := Component.ofEntity_eq_ok hc
      exact ⟨hc, hname, types, htypes, hkind⟩
    · rintro ⟨hrel, hi⟩
      obtain ⟨hname, hsource, htarget, hkind⟩ := relationOf_eq_ok hrel
      exact ⟨hi, hsource, hname, htarget, hkind⟩

/-- The topology of a model is built by adding components and relations. -/
theorem built_of_build {g : EntityGraph} {name : String} {m : Model} (h : build name g = .ok m) :
    m.topology.Built := by
  obtain ⟨⟨t, pending⟩, hread, h⟩ := bind_eq_ok.mp h
  obtain ⟨t', hconnect, h⟩ := bind_eq_ok.mp h
  obtain ⟨_, _, h⟩ := bind_eq_ok.mp h
  cases h
  have hread : t.Built ∧ ∀ p ∈ pending, p.source < t.size := by
    refine foldlM_invariant (p := fun state : Topology × List Pending =>
      state.1.Built ∧ ∀ p ∈ state.2, p.source < state.1.size) ?_ hread ⟨.empty, by simp⟩
    rintro ⟨t, pending⟩ i _ state ⟨ht, hlt⟩ hi
    obtain ⟨c, _, hi⟩ := bind_eq_ok.mp hi
    obtain ⟨rels, _, hi⟩ := bind_eq_ok.mp hi
    cases hi
    refine ⟨.component c ht, fun p hp => ?_⟩
    rcases List.mem_append.mp hp with hp | hp
    · exact Nat.lt_of_lt_of_le (hlt p hp) (t.size_le_addComponent c)
    · obtain ⟨rel, _, rfl⟩ := List.mem_map.mp hp
      exact t.fst_addComponent_lt c
  have hconnect : t'.Built ∧ t'.size = t.size := by
    refine foldlM_invariant (p := fun t' : Topology => t'.Built ∧ t'.size = t.size) ?_ hconnect
      ⟨hread.1, rfl⟩
    rintro t₁ p hp t₂ ⟨ht₁, hsize⟩ h
    unfold connect at h
    split at h
    case h_1 target htarget =>
      cases h
      exact ⟨.relation _ ht₁ (hsize ▸ hread.2 p hp) (Topology.lt_of_find?_eq_some htarget), hsize⟩
    case h_2 => cases h
  exact hconnect.1

/-- An application that stands on a machine declared after it and reads, by a type of the
document's own, from a database. -/
def shopDocument : Value :=
  BuiltIn.mapping
    [(Key.relationTypes, BuiltIn.mapping
        [("reads_from", BuiltIn.mapping [BuiltIn.refining "connects_to"])]),
      (Key.components, BuiltIn.mapping
        [("app", BuiltIn.mapping
            [(Key.type, .string "web_application"),
              (Key.relations, .sequence
                [BuiltIn.mapping [("hosted_on", .string "vm")],
                  BuiltIn.mapping
                    [("reads_from", BuiltIn.mapping [(Key.target, .string "db")])]])]),
          ("vm", BuiltIn.mapping [(Key.type, .string "compute")]),
          ("db", BuiltIn.mapping [(Key.type, .string "database")])])]

theorem build_spec_shop : ∃ g, ofValue true shopDocument = .ok g ∧ g.WellFormed ∧
    ∃ m, build "shop" g = .ok m ∧
      m.topology.edges.toList.map (fun e => (e.source, e.target, e.kind)) =
        [(0, 1, .hostedOn), (0, 2, .connectsTo)] := by
  have hshop : ((ofValue true shopDocument).mapError (.unreadableModel "shop.yaml") >>=
      build "shop").map (fun m => m.topology.edges.toList.map fun e =>
        (e.source, e.target, e.kind)) = .ok [(0, 1, .hostedOn), (0, 2, .connectsTo)] := by
    decide +kernel
  obtain ⟨m, hm, hedges⟩ := map_eq_ok.mp hshop
  obtain ⟨g, hg, hm⟩ := bind_eq_ok.mp hm
  have hvalue := mapError_eq_ok.mp hg
  exact ⟨g, hvalue, (build_spec hvalue "shop").1.mp ⟨m, hm⟩, m, hm, hedges⟩

end Model
end Provision
