import Provision.Data.Sorting
import Provision.Fault
import Provision.Model.Kind

/-! Graphs of generated resources.

The nodes are numbered in the order in which they were added and a name stands for one
node only. An edge is a dependency, or stands for a relation of the model; each edge is
kept once, where it was first declared. The graph never reorders anything. -/
namespace Provision

/-- What has a name within a graph. -/
class Named (ν : Type) where
  name : ν → String

/-- The number of a node. -/
abbrev NodeId := Nat

inductive EdgeLabel where
  /-- The source can only be made after the target. -/
  | dependency
  | relation (kind : RelationKind)
  deriving DecidableEq, Repr

def EdgeLabel.name : EdgeLabel → String
  | .dependency => "dependency"
  | .relation kind => Kind.typeName kind

def EdgeLabel.isRelation (l : EdgeLabel) (k : RelationKind) : Bool :=
  match l with
  | .dependency => false
  | .relation kind => Kind.isA kind k

structure OutputEdge where
  source : NodeId
  target : NodeId
  label : EdgeLabel
  deriving DecidableEq, Repr

structure OutputGraph (ν : Type) where
  nodes : Array ν := #[]
  edges : List OutputEdge := []

namespace OutputGraph

variable {ν : Type}

def empty : OutputGraph ν := {}

def size (g : OutputGraph ν) : Nat := g.nodes.size

def node? (g : OutputGraph ν) (id : NodeId) : Option ν := g.nodes[id]?

/-- Changes a node in place. -/
def adjust (g : OutputGraph ν) (id : NodeId) (f : ν → ν) : OutputGraph ν :=
  { g with nodes := g.nodes.modify id f }

/-- Adds an edge unless it is there, and says whether it was added. -/
def addEdge (g : OutputGraph ν) (source target : NodeId) (label : EdgeLabel) :
    Bool × OutputGraph ν :=
  let e : OutputEdge := { source, target, label }
  if e ∈ g.edges then (false, g) else (true, { g with edges := g.edges ++ [e] })

def addDependency (g : OutputGraph ν) (source target : NodeId) : Bool × OutputGraph ν :=
  g.addEdge source target .dependency

/-- The targets of a node's dependencies, in the order of declaration. -/
def dependencies (g : OutputGraph ν) (id : NodeId) : List NodeId :=
  (g.edges.filter fun e => e.source == id && e.label == .dependency).map OutputEdge.target

/-- The nodes one relation edge of a kind away, ascending. -/
def targets (g : OutputGraph ν) (id : NodeId) (k : RelationKind) : List NodeId :=
  ascending ((g.edges.filter fun e => e.source == id && e.label.isRelation k).map
    OutputEdge.target)

/-- The nodes that a relation edge of a kind leads from, ascending. -/
def sources (g : OutputGraph ν) (id : NodeId) (k : RelationKind) : List NodeId :=
  ascending ((g.edges.filter fun e => e.target == id && e.label.isRelation k).map
    OutputEdge.source)

variable [Named ν]

def find? (g : OutputGraph ν) (name : String) : Option NodeId :=
  g.nodes.findIdx? fun n => Named.name n == name

/-- Adds a node under a new name. -/
def addNode (g : OutputGraph ν) (node : ν) : Except Fault (NodeId × OutputGraph ν) :=
  match g.find? (Named.name node) with
  | some _ => .error (.invalid ("Duplicate output resource name '" ++ Named.name node ++ "'"))
  | none => .ok (g.size, { g with nodes := g.nodes.push node })

/-- The name of a node, nothing for a number that is no node's. -/
def nameOf (g : OutputGraph ν) (id : NodeId) : String :=
  ((g.node? id).map Named.name).getD ""

def dependencyNames (g : OutputGraph ν) (id : NodeId) : List String :=
  (g.dependencies id).map g.nameOf

end OutputGraph
end Provision
