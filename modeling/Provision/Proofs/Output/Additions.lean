import Provision.Output.Indexed
import Provision.Output.Resource
import Provision.Proofs.Data.Construction
import Provision.Proofs.Output.Graph

/-! What an output graph shows of the additions that led to it.

Nodes, edges and dependencies are added in any order, edges between nodes whose numbers were given
out before. A node whose name is taken is refused and an edge that is there is not added again; in
both cases the graph stays as it is. So a graph has the first node of every name and the first of
equal edges, and its queries are about these edges and no others. An index of the names stays in
step with the nodes. -/
namespace Provision.OutputGraph

variable {ν : Type}

/-! ### Queries -/

section
variable {g : OutputGraph ν}

theorem mem_sources {id source : NodeId} {k : RelationKind} :
    source ∈ g.sources id k ↔
      ∃ label : EdgeLabel, label.isRelation k = true ∧ ⟨source, id, label⟩ ∈ g.edges := by
  simp only [sources, mem_ascending, List.mem_map, List.mem_filter, Bool.and_eq_true, beq_iff_eq]
  constructor
  · rintro ⟨⟨source, target, label⟩, ⟨he, rfl, hlabel⟩, rfl⟩
    exact ⟨label, hlabel, he⟩
  · rintro ⟨label, hlabel, he⟩
    exact ⟨_, ⟨he, rfl, hlabel⟩, rfl⟩

/-- A label stands for a relation if it is the label of one. -/
theorem exists_isRelation {k : RelationKind} {p : EdgeLabel → Prop} :
    (∃ label : EdgeLabel, label.isRelation k = true ∧ p label) ↔
      ∃ kind, p (.relation kind) ∧ Kind.isA kind k := by
  constructor
  · rintro ⟨_ | kind, hk, hp⟩
    · cases hk
    · exact ⟨kind, hp, hk⟩
  · rintro ⟨kind, hp, hk⟩
    exact ⟨.relation kind, hk, hp⟩

theorem dependencies_of_edges {edges : List OutputEdge}
    (h : g.edges = edges.eraseDups) (id : NodeId) : g.dependencies id =
      ((edges.filter fun e => e.source == id && e.label == .dependency).map
        OutputEdge.target).eraseDups := by
  rw [OutputGraph.dependencies, h, filter_eraseDups, map_eraseDups]
  -- Dependencies of one node differ in their targets.
  rintro ⟨s, d, l⟩ he ⟨s', d', l'⟩ he' rfl
  simp only [List.mem_filter, Bool.and_eq_true, beq_iff_eq] at he he'
  rw [he.2.1, he.2.2, he'.2.1, he'.2.2]

end

/-! ### Additions -/

inductive Addition (ν : Type) where
  | node (n : ν)
  | edge (source target : NodeId) (label : EdgeLabel)
  | dependency (source target : NodeId)

namespace Addition

def node? : Addition ν → Option ν
  | .node n => some n
  | _ => none

def edge? : Addition ν → Option OutputEdge
  | .node _ => none
  | .edge source target label => some ⟨source, target, label⟩
  | .dependency source target => some ⟨source, target, .dependency⟩

end Addition

/-! ### One addition -/

section
variable {g : OutputGraph ν} {e : OutputEdge}

theorem addEdge_of_mem (h : e ∈ g.edges) : g.addEdge e.source e.target e.label = (false, g) :=
  if_pos h

theorem addEdge_of_notMem (h : e ∉ g.edges) :
    g.addEdge e.source e.target e.label = (true, { g with edges := g.edges ++ [e] }) :=
  if_neg h

end

variable [Named ν]

/-- A name that is taken is refused, as a fault that tells the name. -/
theorem addNode_of_taken {g : OutputGraph ν} {n : ν} {id : NodeId}
    (h : g.find? (Named.name n) = some id) : g.addNode n =
      .error (.invalid ("Duplicate output resource name '" ++ Named.name n ++ "'")) := by
  rw [addNode, h]

theorem addNode_of_new {g : OutputGraph ν} {n : ν} (h : g.find? (Named.name n) = none) :
    g.addNode n = .ok (g.size, { g with nodes := g.nodes.push n }) := by
  rw [addNode, h]

/-- Output graphs are built by additions. Those of nodes give out numbers, unless they are
refused. -/
def construction : Construction (OutputGraph ν) (Addition ν) where
  start := .empty
  known := []
  call g
    | .node n =>
      match g.addNode n with
      | .ok (id, g') => (some id, g')
      | .error _ => (none, g)
    | .edge source target label => (none, (g.addEdge source target label).2)
    | .dependency source target => (none, (g.addDependency source target).2)
  refersTo
    | .node _ => []
    | .edge source target _ | .dependency source target => [source, target]

theorem call_node_of_taken {g : OutputGraph ν} {n : ν} {id : NodeId}
    (h : g.find? (Named.name n) = some id) : construction.call g (.node n) = (none, g) := by
  simp only [construction, addNode_of_taken h]

theorem call_node_of_new {g : OutputGraph ν} {n : ν} (h : g.find? (Named.name n) = none) :
    construction.call g (.node n) = (some g.size, { g with nodes := g.nodes.push n }) := by
  simp only [construction, addNode_of_new h]

/-! ### Many additions -/

/-- A graph has what was added. -/
structure Shows (g : OutputGraph ν) (additions : List (Addition ν)) : Prop where
  nodes : KeepsFirst Named.name (additions.filterMap Addition.node?) g.nodes
  edges : g.edges = (additions.filterMap Addition.edge?).eraseDups
  inRange : g.InRange

/-- A node that is added is shown, if its name is new. -/
theorem Shows.node {g : OutputGraph ν} {additions : List (Addition ν)} (h : g.Shows additions)
    (n : ν) : (construction.call g (.node n)).2.Shows (additions ++ [.node n]) := by
  have hnodes : (additions ++ [Addition.node n]).filterMap Addition.node? =
      additions.filterMap Addition.node? ++ [n] := List.filterMap_append
  have hedges : (additions ++ [Addition.node n]).filterMap Addition.edge? =
      additions.filterMap Addition.edge? := by
    rw [List.filterMap_append]
    exact List.append_nil _
  cases hname : g.find? (Named.name n) with
  | some id =>
    rw [call_node_of_taken hname]
    refine ⟨?_, by rw [hedges, h.edges], h.inRange⟩
    rw [hnodes]
    refine h.nodes.again (Decidable.byContradiction fun hnew => ?_)
    cases hname.symm.trans (KeepsFirst.findIdx?_eq_none.mpr hnew)
  | none =>
    rw [call_node_of_new hname]
    refine ⟨?_, by rw [hedges, h.edges], h.inRange.push n⟩
    rw [hnodes]
    exact h.nodes.push (KeepsFirst.findIdx?_eq_none.mp hname)

/-- An edge that is added is shown, where it was first added. -/
theorem Shows.addEdge {g : OutputGraph ν} {additions : List (Addition ν)} (h : g.Shows additions)
    {a : Addition ν} {e : OutputEdge} (hnode : a.node? = none) (hedge : a.edge? = some e)
    (hsource : e.source < g.size) (htarget : e.target < g.size) :
    (g.addEdge e.source e.target e.label).2.Shows (additions ++ [a]) where
  nodes := by
    rw [nodes_addEdge, List.filterMap_append, List.filterMap_cons_none hnode, List.filterMap_nil,
      List.append_nil]
    exact h.nodes
  edges := by
    rw [List.filterMap_append, List.filterMap_cons_some hedge, List.filterMap_nil,
      eraseDups_concat]
    by_cases he : e ∈ g.edges
    · rw [addEdge_of_mem he, h.edges, if_pos]
      rwa [h.edges, List.mem_eraseDups] at he
    · rw [addEdge_of_notMem he, if_neg, h.edges]
      rwa [h.edges, List.mem_eraseDups] at he
  inRange := h.inRange.addEdge hsource htarget e.label

theorem Shows.call {g : OutputGraph ν} {additions : List (Addition ν)} (h : g.Shows additions)
    (a : Addition ν) (ha : ∀ id ∈ construction.refersTo a, id < g.size) :
    (construction.call g a).2.Shows (additions ++ [a]) := by
  cases a with
  | node n => exact h.node n
  | edge source target label =>
    have hsource := ha source List.mem_cons_self
    have htarget := ha target (List.mem_cons_of_mem _ List.mem_cons_self)
    exact h.addEdge (e := ⟨source, target, label⟩) rfl rfl hsource htarget
  | dependency source target =>
    have hsource := ha source List.mem_cons_self
    have htarget := ha target (List.mem_cons_of_mem _ List.mem_cons_self)
    exact h.addEdge (e := ⟨source, target, .dependency⟩) rfl rfl hsource htarget

/-- The numbers that are given out are those of the nodes. -/
theorem counts_construction : (construction (ν := ν)).Counts OutputGraph.size where
  start _ := ⟨fun h => absurd h List.not_mem_nil, fun h => absurd h (Nat.not_lt_zero _)⟩
  call g a id := by
    cases a with
    | edge source target label =>
      show _ ∨ id ∈ [] ↔ id < (g.addEdge source target label).2.nodes.size
      rw [nodes_addEdge]
      exact or_iff_left List.not_mem_nil
    | dependency source target =>
      show _ ∨ id ∈ [] ↔ id < (g.addEdge source target .dependency).2.nodes.size
      rw [nodes_addEdge]
      exact or_iff_left List.not_mem_nil
    | node n =>
      cases hname : g.find? (Named.name n) with
      | some old =>
        rw [call_node_of_taken hname]
        exact or_iff_left List.not_mem_nil
      | none =>
        rw [call_node_of_new hname]
        show _ ∨ id ∈ [g.size] ↔ id < (Array.push _ _).size
        rw [List.mem_singleton, Array.size_push, ← Nat.lt_succ_iff_lt_or_eq]
        rfl

theorem shows_run {additions : List (Addition ν)} (h : construction.Admissible additions) :
    (construction.run additions).Shows additions :=
  counts_construction.holds_run ⟨.empty, rfl, fun _ he => absurd he List.not_mem_nil⟩
    (fun _ _ a hshows ha => hshows.call a ha) h

/-! ### Additions with an index -/

namespace Indexed

/-- The index has the numbers of the names. -/
structure InStep (x : Indexed ν) (g : OutputGraph ν) : Prop where
  graph : x.toOutputGraph = g
  find? : ∀ name, x.find? name = g.find? name

theorem InStep.empty : (Indexed.empty : Indexed ν).InStep .empty where
  graph := rfl
  find? _ := Array.findIdx?_empty.symm

/-- Graphs with an index are built by the same additions. -/
def construction : Construction (Indexed ν) (Addition ν) where
  start := .empty
  known := []
  call x
    | .node n =>
      match x.addNode n with
      | .ok (id, x') => (some id, x')
      | .error _ => (none, x)
    | .edge source target label => (none, (x.addEdge source target label).2)
    | .dependency source target => (none, (x.addEdge source target .dependency).2)
  refersTo := OutputGraph.construction.refersTo

theorem InStep.node {x : Indexed ν} {g : OutputGraph ν} (h : x.InStep g) (n : ν) :
    (construction.call x (.node n)).1 = (OutputGraph.construction.call g (.node n)).1 ∧
      (construction.call x (.node n)).2.InStep (OutputGraph.construction.call g (.node n)).2 := by
  obtain ⟨rfl, hfind⟩ := h
  have hname := hfind (Named.name n)
  cases hid : x.find? (Named.name n) with
  | some id =>
    have hx : construction.call x (.node n) = (none, x) := by
      simp only [construction, addNode, hid]
    rw [hx, call_node_of_taken (hname.symm.trans hid)]
    exact ⟨rfl, rfl, hfind⟩
  | none =>
    rw [call_node_of_new (hname.symm.trans hid)]
    simp only [construction, addNode, hid]
    exact ⟨trivial, rfl, get?_insert_eq_findIdx? hfind hid⟩

theorem InStep.addEdge {x : Indexed ν} {g : OutputGraph ν} (h : x.InStep g)
    (source target : NodeId) (label : EdgeLabel) :
    (x.addEdge source target label).2.InStep (g.addEdge source target label).2 := by
  obtain ⟨rfl, hfind⟩ := h
  refine ⟨rfl, fun name => ?_⟩
  rw [OutputGraph.find?, nodes_addEdge]
  exact hfind name

theorem InStep.call {x : Indexed ν} {g : OutputGraph ν} (h : x.InStep g) (a : Addition ν) :
    (construction.call x a).1 = (OutputGraph.construction.call g a).1 ∧
      (construction.call x a).2.InStep (OutputGraph.construction.call g a).2 := by
  cases a with
  | node n => exact h.node n
  | edge source target label => exact ⟨rfl, h.addEdge source target label⟩
  | dependency source target => exact ⟨rfl, h.addEdge source target .dependency⟩

/-- The index stays in step, and the same numbers are given out. -/
theorem inStep_run {additions : List (Addition ν)}
    (h : OutputGraph.construction.Admissible additions) :
    (construction.run additions).InStep (OutputGraph.construction.run additions) ∧
      construction.given additions = OutputGraph.construction.given additions :=
  h.inStep InStep .empty rfl fun _ a _ _ hstep => hstep.call a

end Indexed

/-! ### What is asked of a graph -/

/-- The answers of a graph are those that the additions give. -/
structure Answers (g : OutputGraph ν) (additions : List (Addition ν)) : Prop where
  nodup_names : (g.nodes.toList.map Named.name).Nodup
  find?_eq_some : ∀ name id, g.find? name = some id ↔
    ∃ n, g.node? id = some n ∧ Named.name n = name
  /-- The names, in the order in which they were first added. -/
  names : g.nodes.toList.map Named.name =
    ((additions.filterMap Addition.node?).map Named.name).eraseDups
  /-- Every node is the first one that was added with its name. -/
  first : ∀ n ∈ g.nodes,
    (additions.filterMap Addition.node?).find? (fun d => Named.name d == Named.name n) = some n
  /-- The edges, each once and where it was first added. -/
  edges : g.edges = (additions.filterMap Addition.edge?).eraseDups
  ends_lt : ∀ e ∈ g.edges, e.source < g.size ∧ e.target < g.size
  dependencies : ∀ id, g.dependencies id =
    (((additions.filterMap Addition.edge?).filter fun e =>
      e.source == id && e.label == .dependency).map OutputEdge.target).eraseDups
  targets_ascending : ∀ id k, (g.targets id k).Pairwise (· < ·)
  sources_ascending : ∀ id k, (g.sources id k).Pairwise (· < ·)
  targets : ∀ n m k, m ∈ g.targets n k ↔
    ∃ kind, ⟨n, m, .relation kind⟩ ∈ additions.filterMap Addition.edge? ∧ Kind.isA kind k
  sources : ∀ n m k, n ∈ g.sources m k ↔
    ∃ kind, ⟨n, m, .relation kind⟩ ∈ additions.filterMap Addition.edge? ∧ Kind.isA kind k

theorem Shows.answers {g : OutputGraph ν} {additions : List (Addition ν)}
    (h : g.Shows additions) : g.Answers additions where
  nodup_names := h.nodes.nodup
  find?_eq_some _ _ := h.nodes.findIdx?_eq_some
  names := h.nodes.names
  first := h.nodes.first
  edges := h.edges
  ends_lt := h.inRange
  dependencies := dependencies_of_edges h.edges
  targets_ascending _ _ := ascending_pairwise _
  sources_ascending _ _ := ascending_pairwise _
  targets n m k := by simp only [mem_targets, exists_isRelation, h.edges, List.mem_eraseDups]
  sources n m k := by simp only [mem_sources, exists_isRelation, h.edges, List.mem_eraseDups]

/-- What a further addition to a graph comes to. -/
structure Accepts (g : OutputGraph ν) (additions : List (Addition ν)) : Prop where
  refused : ∀ n : ν, Named.name n ∈ (additions.filterMap Addition.node?).map Named.name →
    g.addNode n = .error (.invalid ("Duplicate output resource name '" ++ Named.name n ++ "'")) ∧
      construction.call g (.node n) = (none, g)
  numbered : ∀ n : ν, Named.name n ∉ (additions.filterMap Addition.node?).map Named.name →
    g.addNode n = .ok (g.size, { g with nodes := g.nodes.push n })
  added : ∀ e : OutputEdge, (g.addEdge e.source e.target e.label).1 = true ↔
    e ∉ additions.filterMap Addition.edge?
  known : ∀ e ∈ additions.filterMap Addition.edge?,
    (g.addEdge e.source e.target e.label).2 = g

theorem Shows.accepts {g : OutputGraph ν} {additions : List (Addition ν)}
    (h : g.Shows additions) : g.Accepts additions := by
  have hname (name : String) : g.find? name = none ↔
      name ∉ (additions.filterMap Addition.node?).map Named.name := by
    rw [find?, KeepsFirst.findIdx?_eq_none, h.nodes.names, List.mem_eraseDups]
  have hedge (e : OutputEdge) : e ∈ g.edges ↔ e ∈ additions.filterMap Addition.edge? := by
    rw [h.edges, List.mem_eraseDups]
  refine ⟨fun n hn => ?_, fun n hn => addNode_of_new ((hname _).mpr hn), fun e => ?_,
    fun e he => by rw [addEdge_of_mem ((hedge e).mpr he)]⟩
  · cases hfind : g.find? (Named.name n) with
    | none => exact absurd hn ((hname _).mp hfind)
    | some id => exact ⟨addNode_of_taken hfind, call_node_of_taken hfind⟩
  · rw [← hedge]
    by_cases he : e ∈ g.edges
    · simp [addEdge_of_mem he, he]
    · simp [addEdge_of_notMem he, he]

/-- **An output graph shows what was added to it.** Names are unique and lead to the numbers of
their nodes, every edge is kept once, and adding reports what is new. All queries are about the
edges that were added: the dependencies of a node in the order of the additions, and those that a
relation leads to and comes from, which are the same relation seen from both sides and leave out
what is a dependency only. With an index of the names, the numbers and the answers are the same. -/
theorem additions_kept {additions : List (Addition ν)} (h : construction.Admissible additions) :
    (construction.run additions).Answers additions ∧
      (construction.run additions).Accepts additions ∧
      (∀ n m k, m ∈ (construction.run additions).targets n k ↔
        n ∈ (construction.run additions).sources m k) ∧
      (∀ n m, (∀ e ∈ additions.filterMap Addition.edge?,
          e.source = n → e.target = m → e.label = .dependency) →
        ∀ k, m ∉ (construction.run additions).targets n k ∧
          n ∉ (construction.run additions).sources m k) ∧
      (Indexed.construction.run additions).InStep (construction.run additions) ∧
      Indexed.construction.given additions = construction.given additions := by
  have hshows := shows_run h
  have hanswers := hshows.answers
  have hsame (n m : NodeId) (k : RelationKind) : m ∈ (construction.run additions).targets n k ↔
      n ∈ (construction.run additions).sources m k := by
    rw [hanswers.targets, hanswers.sources]
  refine ⟨hanswers, hshows.accepts, hsame, fun n m hdependency k => ?_, Indexed.inStep_run h⟩
  have hnot : m ∉ (construction.run additions).targets n k := by
    rw [hanswers.targets]
    rintro ⟨kind, he, _⟩
    cases hdependency _ he rfl rfl
  exact ⟨hnot, mt (hsame n m k).mpr hnot⟩

/-- A name that is added again, and an edge that is. -/
def repeating : List (Addition Resource) :=
  [.node { name := "net", type := "network" }, .node { name := "vm", type := "machine" },
    .dependency 1 0, .node { name := "net", type := "subnet" },
    .edge 1 0 (.relation .hostedOn), .edge 1 0 .dependency, .dependency 1 1]

theorem additions_kept_repeating : construction.Admissible repeating ∧
    (construction.run repeating).nodes.toList.map Resource.type = ["network", "machine"] ∧
    (construction.run repeating).addNode { name := "net", type := "subnet" } =
      .error (.invalid "Duplicate output resource name 'net'") ∧
    (construction.run repeating).dependencies 1 = [0, 1] ∧
    ((construction.run repeating).addDependency 1 0).1 = false ∧
    1 ∈ (construction.run repeating).sources 0 .dependsOn ∧
    1 ∉ (construction.run repeating).targets 1 .dependsOn ∧
    (Indexed.construction.run repeating).find? "vm" = some 1 := by
  have hadmissible : construction.Admissible repeating := by decide +kernel
  obtain ⟨hanswers, haccepts, hsame, hnot, hstep, _⟩ := additions_kept hadmissible
  refine ⟨hadmissible, by decide +kernel, (haccepts.refused _ (by decide)).1, ?_, ?_, ?_, ?_, ?_⟩
  · rw [hanswers.dependencies]
    decide
  · have hknown := haccepts.added ⟨1, 0, .dependency⟩
    exact eq_false_of_ne_true (mt hknown.mp (by decide))
  · rw [← hsame, hanswers.targets]
    exact ⟨.hostedOn, by decide, by decide⟩
  · exact (hnot 1 1 (by decide) .dependsOn).1
  · exact (hstep.find? "vm").trans (by decide +kernel)

end Provision.OutputGraph
