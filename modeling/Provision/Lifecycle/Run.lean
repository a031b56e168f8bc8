import Provision.Fault
import Provision.Lifecycle.Phase

/-! Running a target through its phases.

A phase is performed only if it may come next; any other call is refused before the
target sees it and changes nothing. A whole run stops at a failed check; once preparing
was tried, cleaning up follows whatever happens, and of several faults the first one is
reported. -/
namespace Provision

/-- What a target does in each phase. -/
structure Lifecycle (m : Type → Type) where
  target : String
  perform : Phase → ExceptT Fault m Unit

namespace Lifecycle

variable {m : Type → Type} [Monad m]

/-- The refusal of a phase that may not come next. -/
def outOfOrder (p : Progress) (requested : Phase) : Fault :=
  .lifecycleOrder ((p.next?.map Phase.name).getD "no further phase") requested.name

/-- A fault of a phase, and which phase of which target it was. -/
def failure (l : Lifecycle m) (phase : Phase) (f : Fault) : Error :=
  (f : Error).within (l.target ++ " phase '" ++ phase.name ++ "' failed")

/-- Performs a phase, if it may come next. -/
def step (l : Lifecycle m) (phase : Phase) (p : Progress) : m (Except Error Unit × Progress) :=
  if p.next? = some phase then do
    match ← (l.perform phase).run with
    | .ok () => return (.ok (), .after phase)
    | .error f => return (.error (l.failure phase f), .failed phase)
  else return (.error (outOfOrder p phase), p)

/-- Preparing and then, if that worked, transforming. -/
def produce (l : Lifecycle m) (p : Progress) : m (Except Error Unit × Progress) := do
  match ← l.step .prepare p with
  | (.ok (), p) => l.step .transform p
  | failed => return failed

/-- All phases in order. -/
def run (l : Lifecycle m) (p : Progress) : m (Except Error Unit × Progress) := do
  match ← l.step .checkEnvironment p with
  | (.ok (), p) =>
    match ← l.step .checkModel p with
    | (.ok (), p) =>
      let (produced, p) ← l.produce p
      let (cleaned, p) ← l.step .cleanup p
      match produced with
      | .ok () => return (cleaned, p)
      | .error e => return (.error e, p)
    | failed => return failed
  | failed => return failed

end Lifecycle
end Provision
