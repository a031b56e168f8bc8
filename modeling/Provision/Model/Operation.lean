import Provision.Data.Sorting
import Provision.Entity.Graph

/-! Operations.

An operation runs scripts, its artifacts. The five standard operations run in the order
create, configure, start, stop, delete; all others follow by name. -/
namespace Provision

/-- A script of an operation. -/
structure Artifact where
  name : String
  /-- The path of the script, relative to the model's sources. -/
  value : String
  deriving DecidableEq, Repr

/-- The part of the path after its last slash. -/
def Artifact.fileName (a : Artifact) : String :=
  String.ofList (a.value.toList.reverse.takeWhile (· ≠ '/')).reverse

structure Operation where
  name : String
  description : Option String := none
  artifacts : List Artifact := []
  deriving DecidableEq, Repr

namespace Operation

/-- The name of an artifact that is given without one. -/
def command : String := "cmd"

/-- An item of a list of artifacts: a leaf is a script, anything else a list of named
scripts. -/
def artifactsOfItem (g : EntityGraph) (item : EntityId) : List Artifact :=
  match (g.entity item).value with
  | some v => [⟨command, v.text⟩]
  | none =>
    (g.children item).filterMap fun field =>
      (g.entity field).value.map fun v => ⟨(g.entity field).name, v.text⟩

/-- A leaf is short for an operation with one script. -/
def ofEntity (g : EntityGraph) (id : EntityId) : Operation :=
  let e := g.entity id
  match e.value with
  | some v => { name := e.name, artifacts := [⟨command, v.text⟩] }
  | none =>
    { name := e.name
      description := g.childText? id Key.description
      artifacts :=
        match g.child? id Key.artifacts with
        | some list => (g.children list).flatMap (artifactsOfItem g)
        | none => [] }

def hasArtifacts (o : Operation) : Bool := !o.artifacts.isEmpty

/-- The operations that deployments know, in the order in which they run them. -/
def standard : List String := ["create", "configure", "start", "stop", "delete"]

/-- The place among the standard operations; every other one comes after them. -/
def rank (o : Operation) : Nat := standard.idxOf o.name

/-- Whether an operation runs no later than another. -/
def runsBefore (a b : Operation) : Bool :=
  a.rank < b.rank || (a.rank == b.rank && !(decide (b.name < a.name)))

def inOrder (operations : List Operation) : List Operation := sort runsBefore operations

end Operation
end Provision
