import Provision.Topology.Graph

/-! Topologies with indexes.

A topology that is asked often can be kept with the number of every name and, for each component,
with the numbers of the edges from it and to it. No question then goes through all components or
all edges, and the answers are the same. -/
namespace Provision

structure Topology.Indexed extends Topology where
  byName : OrderedMap String ComponentId := .empty
  /-- For each component, the numbers of the edges from it. -/
  outgoing : Array (List Nat) := #[]
  /-- For each component, the numbers of the edges to it. -/
  incoming : Array (List Nat) := #[]

namespace Topology.Indexed

def empty : Indexed := {}

def find? (x : Indexed) (name : String) : Option ComponentId := x.byName.get? name

def addComponent (x : Indexed) (c : Component) : ComponentId × Indexed :=
  match x.find? c.name with
  | some id => (id, x)
  | none => (x.size,
      { x with
        components := x.components.push c
        byName := x.byName.insert c.name x.size
        outgoing := x.outgoing.push []
        incoming := x.incoming.push [] })

def addRelation (x : Indexed) (source target : ComponentId) (relation : Relation) :
    Nat × Indexed :=
  let id := x.edges.size
  (id,
    { x with
      edges := x.edges.push { source, target, relation }
      outgoing := x.outgoing.modify source fun numbers => numbers ++ [id]
      incoming := x.incoming.modify target fun numbers => numbers ++ [id] })

/-- The edge with a number; beyond the last one, an edge without anything. -/
def edge (x : Indexed) (n : Nat) : Edge := x.edges[n]?.getD default

def outgoingEdges (x : Indexed) (id : ComponentId) : List Edge :=
  (x.outgoing[id]?.getD []).map x.edge

def incomingEdges (x : Indexed) (id : ComponentId) : List Edge :=
  (x.incoming[id]?.getD []).map x.edge

def targets (x : Indexed) (id : ComponentId) (k : RelationKind) : List ComponentId :=
  ascending (((x.outgoingEdges id).filter fun e => e.isA k).map Edge.target)

def sources (x : Indexed) (id : ComponentId) (k : RelationKind) : List ComponentId :=
  ascending (((x.incomingEdges id).filter fun e => e.isA k).map Edge.source)

end Topology.Indexed
end Provision
