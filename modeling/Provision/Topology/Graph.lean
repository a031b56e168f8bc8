import Provision.Data.Sorting
import Provision.Model.Component

/-! The topology of a model.

Components are the nodes and relations the edges; an edge goes from the component that
declares the relation to its target. Both are numbered in the order in which they were
added. A name that is taken is not added again. -/
namespace Provision

/-- The number of a component. -/
abbrev ComponentId := Nat

structure Edge where
  source : ComponentId
  target : ComponentId
  relation : Relation
  deriving Inhabited

def Edge.kind (e : Edge) : RelationKind := e.relation.kind

def Edge.isA (e : Edge) (k : RelationKind) : Bool := Kind.isA e.kind k

structure Topology where
  components : Array Component := #[]
  edges : Array Edge := #[]
  deriving Inhabited

namespace Topology

def empty : Topology := {}

def size (t : Topology) : Nat := t.components.size

/-- The component with a number; beyond the last one, a component without anything. -/
def component (t : Topology) (id : ComponentId) : Component := t.components[id]?.getD default

/-- All numbers of components, ascending. -/
def ids (t : Topology) : List ComponentId := List.range t.size

def find? (t : Topology) (name : String) : Option ComponentId :=
  t.components.findIdx? fun c => c.name == name

/-- Adds a component and returns its number, or returns the number of the component that
has its name. -/
def addComponent (t : Topology) (c : Component) : ComponentId × Topology :=
  match t.find? c.name with
  | some id => (id, t)
  | none => (t.size, { t with components := t.components.push c })

/-- Adds an edge and returns its number. -/
def addRelation (t : Topology) (source target : ComponentId) (relation : Relation) :
    Nat × Topology :=
  (t.edges.size, { t with edges := t.edges.push { source, target, relation } })

/-- The edges from a component, in the order in which they were added. -/
def outgoing (t : Topology) (id : ComponentId) : List Edge :=
  t.edges.toList.filter fun e => e.source == id

/-- The edges to a component, in the order in which they were added. -/
def incoming (t : Topology) (id : ComponentId) : List Edge :=
  t.edges.toList.filter fun e => e.target == id

/-- The components one edge of a kind away, ascending. -/
def targets (t : Topology) (id : ComponentId) (k : RelationKind) : List ComponentId :=
  ascending (((t.outgoing id).filter fun e => e.isA k).map Edge.target)

/-- The components that an edge of a kind leads from, ascending. -/
def sources (t : Topology) (id : ComponentId) (k : RelationKind) : List ComponentId :=
  ascending (((t.incoming id).filter fun e => e.isA k).map Edge.source)

theorem mem_targets {t : Topology} {s d : ComponentId} {k : RelationKind} :
    d ∈ t.targets s k ↔ ∃ e ∈ t.edges, e.source = s ∧ e.target = d ∧ e.isA k := by
  simp only [targets, outgoing, mem_ascending, List.mem_map, List.mem_filter, beq_iff_eq,
    Array.mem_toList_iff]
  constructor
  · rintro ⟨e, ⟨⟨he, hs⟩, hk⟩, ht⟩
    exact ⟨e, he, hs, ht, hk⟩
  · rintro ⟨e, he, hs, ht, hk⟩
    exact ⟨e, ⟨⟨he, hs⟩, hk⟩, ht⟩

theorem mem_sources {t : Topology} {s d : ComponentId} {k : RelationKind} :
    s ∈ t.sources d k ↔ ∃ e ∈ t.edges, e.source = s ∧ e.target = d ∧ e.isA k := by
  simp only [sources, incoming, mem_ascending, List.mem_map, List.mem_filter, beq_iff_eq,
    Array.mem_toList_iff]
  constructor
  · rintro ⟨e, ⟨⟨he, ht⟩, hk⟩, hs⟩
    exact ⟨e, he, hs, ht, hk⟩
  · rintro ⟨e, he, hs, ht, hk⟩
    exact ⟨e, ⟨⟨he, ht⟩, hk⟩, hs⟩

end Topology
end Provision
