import Provision.Deployment.Registry
import Provision.Deployment.Request
import Provision.Workspace

/-! Executing a request.

The model is read and built once. Then every target runs by itself in a workspace of its
own; a target that fails does not keep the others from running. -/
namespace Provision

/-- What the user is told while a request is executed. -/
inductive Notice where
  | loading (path : String)
  | detected (components relations : Nat)
  | generating (place total : Nat) (target : String)
  | failed (target : String) (error : Error)
  | finished (failures total : Nat)
  deriving Repr

def Notice.message : Notice → String
  | .loading path => "📖 Loading deployment model from: " ++ path
  | .detected components relations =>
    "✅ Detected " ++ toString components ++ " component(s) and " ++ toString relations ++
      " relation(s)"
  | .generating _ _ target => "generating " ++ target
  | .failed target error => "❌ " ++ target ++ ": " ++ error.message
  | .finished failures total =>
    if failures = 0 then "✅ Generated " ++ toString total ++ " target(s)"
    else "⚠️  " ++ toString failures ++ " of " ++ toString total ++ " target(s) failed"

/-- Where a request is executed. Targets run in a monad `n` of their own, and each leaves
a result `ρ`. -/
structure Site (m n : Type → Type) (ρ : Type) where
  readModel : String → ExceptT Fault m EntityGraph
  announce : Notice → m Unit
  /-- Runs a target in a fresh workspace. -/
  inWorkspace : {α : Type} → String → (Workspace n → n α) → m (α × ρ)

structure Outcome (ρ : Type) where
  target : String
  error : Option Error
  left : ρ

def Outcome.succeeded {ρ : Type} (o : Outcome ρ) : Bool := o.error.isNone

structure Response (ρ : Type) where
  modelName : String
  /-- One for each target of the request, in its order. -/
  outcomes : List (Outcome ρ)

namespace Response

variable {ρ : Type}

def allSucceeded (r : Response ρ) : Bool := r.outcomes.all Outcome.succeeded

def failedTargets (r : Response ρ) : List String :=
  (r.outcomes.filter fun o => !o.succeeded).map Outcome.target

end Response

namespace Request

variable {m n : Type → Type} [Monad m] [Monad n] {ρ : Type}

/-- Reads and builds the model of a request. -/
def loadModel (r : Request) (site : Site m n ρ) : ExceptT Fault m Model := do
  liftM (site.announce (.loading r.modelPath))
  let graph ← site.readModel r.modelPath
  let model ← ofExcept (Model.build r.modelName graph)
  liftM (site.announce (.detected model.topology.size model.topology.edges.size))
  return model

/-- Runs the lifecycle of a target from its start. -/
def runTarget (r : Request) (registry : Registry n) (model : Model) (target : String)
    (workspace : Workspace n) : n (Except Error Unit) :=
  match registry.create { target, model, settings := r.settingsFor target, workspace } with
  | .ok lifecycle => return (← lifecycle.run .idle).1
  | .error f => return .error f

def generate (r : Request) (registry : Registry n) (site : Site m n ρ) (model : Model)
    (target : String) : m (Outcome ρ) := do
  let (result, left) ← site.inWorkspace target (r.runTarget registry model target)
  match result with
  | .ok () => return { target, error := none, left }
  | .error e =>
    site.announce (.failed target e)
    return { target, error := some e, left }

def execute (r : Request) (registry : Registry n) (site : Site m n ρ) :
    ExceptT Fault m (Response ρ) := do
  ofExcept (registry.validate r.targets)
  let model ← r.loadModel site
  let total := r.targets.length
  let outcomes ← r.targets.zipIdx.mapM fun (target, i) => liftM (do
    site.announce (.generating (i + 1) total target)
    r.generate registry site model target : m (Outcome ρ))
  liftM (site.announce (.finished (outcomes.countP fun o => !o.succeeded) total))
  return { modelName := model.name, outcomes }

end Request

/-! ### In memory -/

/-- A site in memory: the notices are collected, and every target has the same setup. -/
def Memory.site (setup : Memory.Setup) (readModel : String → Except Fault EntityGraph) :
    Site (StateM (List Notice)) Memory.M Memory.Store where
  readModel path := ofExcept (readModel path)
  announce notice := modify (· ++ [notice])
  inWorkspace _ run := return (run (Memory.workspace setup)).run {}

end Provision
