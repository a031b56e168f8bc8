import Provision.Data.OrderedMap
import Provision.Output.Graph

/-! Output graphs with an index of the names.

A graph that is asked for many names can be kept with the number of every name. No look-up then
goes through all nodes, and the answers are the same. -/
namespace Provision

structure OutputGraph.Indexed (ν : Type) extends OutputGraph ν where
  byName : OrderedMap String NodeId := .empty

namespace OutputGraph.Indexed

variable {ν : Type}

def empty : Indexed ν := {}

def find? (x : Indexed ν) (name : String) : Option NodeId := x.byName.get? name

def addEdge (x : Indexed ν) (source target : NodeId) (label : EdgeLabel) : Bool × Indexed ν :=
  let (isNew, g) := x.toOutputGraph.addEdge source target label
  (isNew, { x with toOutputGraph := g })

/-- Adds a node under a new name. -/
def addNode [Named ν] (x : Indexed ν) (node : ν) : Except Fault (NodeId × Indexed ν) :=
  match x.find? (Named.name node) with
  | some _ => .error (.invalid ("Duplicate output resource name '" ++ Named.name node ++ "'"))
  | none => .ok (x.size,
      { x with
        nodes := x.nodes.push node
        byName := x.byName.insert (Named.name node) x.size })

end OutputGraph.Indexed
end Provision
