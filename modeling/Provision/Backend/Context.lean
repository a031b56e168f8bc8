import Provision.Lifecycle.Run
import Provision.Model.Build
import Provision.Topology.Hosting
import Provision.Topology.Visit
import Provision.Workspace

/-! What the backends share.

A backend works on a job: a model, the settings of its target and a workspace. While it
visits the topology it keeps a state of its own, which outlives a fault. Properties
reach the scripts as environment variables; those of a component take precedence over
those of its hosts, and of the hosts the nearer ones over the farther ones. -/
namespace Provision

/-- Settings of one target. -/
structure Settings where
  /-- Whether the tools that a target needs have to be there. -/
  verifyTools : Bool := false
  options : OrderedMap String String := .empty
  deriving Inhabited

namespace Settings

def option? (s : Settings) (key : String) : Option String := s.options.get? key

def optionOr (s : Settings) (key fallback : String) : String := (s.option? key).getD fallback

end Settings

structure Job (m : Type → Type) where
  target : String
  model : Model
  settings : Settings
  workspace : Workspace m

/-! ### Visits -/

/-- The components that a run has handled. A component is handled once; further visits of it do
nothing. -/
structure Visited where
  done : List ComponentId := []
  deriving Inhabited

namespace Visited

def contains (v : Visited) (id : ComponentId) : Bool := decide (id ∈ v.done)

/-- Marks a component as handled and says whether it was not yet. -/
def mark (v : Visited) (id : ComponentId) : Bool × Visited :=
  if id ∈ v.done then (false, v) else (true, ⟨id :: v.done⟩)

def size (v : Visited) : Nat := v.done.length

def isEmpty (v : Visited) : Bool := v.done.isEmpty

end Visited

/-- What a visit has built, and the components that it has handled. -/
structure Assembly (σ : Type) where
  built : σ
  visited : Visited := {}
  deriving Inhabited

/-- Steps on an assembly. What was built before a fault is kept. -/
abbrev Build (σ : Type) (m : Type → Type) := ExceptT Fault (StateT (Assembly σ) m)

namespace Build

variable {σ : Type} {m : Type → Type} [Monad m]

/-- A step that does not touch the assembly. -/
def lift {α : Type} (step : ExceptT Fault m α) : Build σ m α :=
  ExceptT.mk (StateT.lift step.run)

def built : Build σ m σ := return (← get).built

def change (f : σ → σ) : Build σ m Unit := modify fun a => { a with built := f a.built }

/-- Handles a component, unless it was handled before. A component whose handling fails
counts as handled. -/
def once (id : ComponentId) (handle : Build σ m Unit) : Build σ m Unit := do
  let (new, visited) := (← get).visited.mark id
  modify fun a => { a with visited }
  if new then handle

/-- Runs a step from an assembly. -/
def runFrom {α : Type} (step : Build σ m α) (a : Assembly σ) : m (Except Fault α × Assembly σ) :=
  StateT.run (ExceptT.run step) a

/-- Runs a step that has to succeed from nothing handled, and gives what it has built. -/
def finish (step : Build σ m Unit) (start : σ) : ExceptT Fault m σ := do
  match ← liftM (step.runFrom { built := start }) with
  | (.ok (), a) => return a.built
  | (.error f, _) => throw f

end Build

/-! ### Environment variables -/

namespace Component

/-- The variable for a property: the component's name and the property's, in capitals. -/
def variableName (c : Component) (property : String) : String :=
  Text.upper (c.identifier ++ "_" ++ Text.identifier property)

/-- The values of a component's properties by variable. -/
def environment (c : Component) : OrderedMap String String :=
  .ofList (c.propertyTexts.toList.map fun (name, value) => (c.variableName name, value))

end Component

namespace Topology

/-- The environments of a component's hosts, farthest first. -/
def hostEnvironments (t : Topology) (id : ComponentId) : List (OrderedMap String String) :=
  (t.hostsAbove id).reverse.map fun host => (t.component host).environment

/-- The environment of a component on its hosts. -/
def stackedEnvironment (t : Topology) (id : ComponentId) : OrderedMap String String :=
  .mergeAll (t.hostEnvironments id ++ [(t.component id).environment])

end Topology

/-! ### Checks and handlers -/

namespace Job

variable {m : Type → Type} [Monad m]

/-- Checks for tools, if the settings ask for it. -/
def requireTools (job : Job m) (tools : List String) : ExceptT Fault m Unit :=
  if job.settings.verifyTools then
    tools.forM fun tool => do
      if !(← liftM (job.workspace.hasTool tool)) then
        throw (.environment job.target ("'" ++ tool ++ "' was not found on PATH"))
  else return ()

/-- The lifecycle of a backend that has checks of its own and fills its workspace in one
go. -/
def lifecycle (job : Job m) (checkEnvironment checkModel transform : ExceptT Fault m Unit) :
    Lifecycle m where
  target := job.target
  perform
    | .checkEnvironment => checkEnvironment
    | .checkModel => checkModel
    | .prepare => job.workspace.prepare
    | .transform => transform
    | .cleanup => job.workspace.release

end Job

/-- Handlers for computes on the one hand and for everything that runs on them on the
other. -/
def Visitor.onHosts {m : Type → Type} (target : String)
    (compute software : ComponentId → Component → m Unit) : Visitor m where
  target
  component?
    | .compute => some compute
    | .softwareComponent | .database | .webApplication => some software
    | _ => none

end Provision
