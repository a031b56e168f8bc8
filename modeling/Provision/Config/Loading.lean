import Provision.Config.Basic
import Provision.Files.System

/-! Configurations from files. -/
namespace Provision.Config

variable {m : Type → Type} [Monad m]

/-- The name of a configuration that stands beside a model. -/
def fileName : String := "topology-transform.config.yml"

/-- Puts what was being done to a configuration around a fault. -/
def failing (doing path advice : String) (cause : Fault) : Error :=
  { context := [doing ++ " config file: " ++ path ++ hint advice], fault := cause }

def load (fs : FileSystem m) (path : String) : ExceptT Error m Config := do
  let text ← ExceptT.adapt
    (fun e => failing "Failed to read" path "Check that the file exists and is readable."
      (.other e.message)) (fs.readText path)
  let draft ← ofExcept <| (Draft.parse text).mapError fun e =>
    failing "Failed to parse" path "Ensure the file contains valid YAML syntax."
      (.malformedConfig e)
  ofExcept (draft.validate.mapError fun fault => { fault })

/-- Loads the configuration of a directory if there is one. -/
def discover? (fs : FileSystem m) (directory : String) : ExceptT Error m (Option Config) := do
  let path := Files.Path.join directory fileName
  if ← fs.leads path then return some (← load fs path)
  return none

/-- What is said about a field that is not known. -/
def warning (field : String) : String :=
  "⚠️  Warning: Unknown config field '" ++ field ++ "' will be ignored."

end Provision.Config
