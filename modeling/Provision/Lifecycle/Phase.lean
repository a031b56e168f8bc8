/-! The phases of a run.

A run of a target goes through five phases in a fixed order. Where it stands is a state;
the state decides which phase may come next. A failed phase ends the run, except that
what was prepared is still cleaned up. -/
namespace Provision

inductive Phase where
  | checkEnvironment
  | checkModel
  | prepare
  | transform
  | cleanup
  deriving DecidableEq, Repr, Inhabited

def Phase.name : Phase → String
  | .checkEnvironment => "check_environment"
  | .checkModel => "check_model"
  | .prepare => "prepare"
  | .transform => "transform"
  | .cleanup => "cleanup"

/-- All phases in their order. -/
def Phase.all : List Phase := [.checkEnvironment, .checkModel, .prepare, .transform, .cleanup]

inductive Progress where
  | idle
  | environmentChecked
  | modelChecked
  | prepared
  | transformed
  | cleanedUp
  | failed (phase : Phase)
  deriving DecidableEq, Repr, Inhabited

namespace Progress

/-- The phase that may come next. -/
def next? : Progress → Option Phase
  | .idle => some .checkEnvironment
  | .environmentChecked => some .checkModel
  | .modelChecked => some .prepare
  | .prepared => some .transform
  | .transformed | .failed .prepare | .failed .transform => some .cleanup
  | .cleanedUp | .failed _ => none

/-- Where a run stands when a phase has succeeded. -/
def after : Phase → Progress
  | .checkEnvironment => .environmentChecked
  | .checkModel => .modelChecked
  | .prepare => .prepared
  | .transform => .transformed
  | .cleanup => .cleanedUp

def name : Progress → String
  | .idle => "Idle"
  | .environmentChecked => "EnvironmentChecked"
  | .modelChecked => "ModelChecked"
  | .prepared => "Prepared"
  | .transformed => "Transformed"
  | .cleanedUp => "CleanedUp"
  | .failed phase => "Failed(" ++ phase.name ++ ")"

end Progress
end Provision
