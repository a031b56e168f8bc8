import Provision.Data.OrderedMap
import Provision.Output.Graph
import Provision.Topology.Graph

/-! Derived values.

A resource needs values that it does not declare itself: those of its neighbours, those
of the resources nested in it. They are collected in a fixed order, and the last one
collected under a name counts. -/
namespace Provision

variable {β : Type}

namespace OutputGraph

variable {ν : Type}

/-- What the relation targets of a node contribute, in the order of their numbers. -/
def collect (g : OutputGraph ν) (id : NodeId) (k : RelationKind)
    (contribution : ν → OrderedMap String β) : OrderedMap String β :=
  .mergeAll ((g.targets id k).filterMap fun target => (g.node? target).map contribution)

end OutputGraph

namespace Topology

/-- What the relation targets of a component contribute, in the order of their numbers.
The first fault ends the collection. -/
def collect (t : Topology) (id : ComponentId) (k : RelationKind)
    (contribution : ComponentId → Except Fault (OrderedMap String β)) :
    Except Fault (OrderedMap String β) := do
  return .mergeAll (← (t.targets id k).mapM contribution)

end Topology

/-! ### Composites -/

/-- Something made of parts of its own kind. -/
inductive Composite (α : Type) where
  | node (value : α) (parts : List (Composite α))
  deriving Inhabited

namespace Composite

variable {α : Type}

def value : Composite α → α
  | .node v _ => v

def parts : Composite α → List (Composite α)
  | .node _ parts => parts

mutual

/-- The values that a composite and then its parts have of their own, in order. -/
def collect (own : α → OrderedMap String β) : Composite α → OrderedMap String β
  | .node v parts => collectInto own (own v) parts

/-- The values of parts merged one after another into what is there. -/
def collectInto (own : α → OrderedMap String β) (merged : OrderedMap String β) :
    List (Composite α) → OrderedMap String β
  | [] => merged
  | c :: rest => collectInto own (merged.merge (c.collect own)) rest

end

mutual

/-- A composite and all of its parts, a whole before its parts. -/
def preorder : Composite α → List α
  | .node v parts => v :: preorderAll parts

def preorderAll : List (Composite α) → List α
  | [] => []
  | c :: rest => c.preorder ++ preorderAll rest

end

mutual

/-- A composite and all of its parts, a whole after its parts. -/
def postorder : Composite α → List α
  | .node v parts => postorderAll parts ++ [v]

def postorderAll : List (Composite α) → List α
  | [] => []
  | c :: rest => c.postorder ++ postorderAll rest

end

end Composite
end Provision
