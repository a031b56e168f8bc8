import Provision.Backend.Context
import Provision.Files.Path

/-! Requests.

A request says which model is to be generated for which targets, and where things are. -/
namespace Provision

structure Request where
  modelPath : String
  /-- The directory that scripts are read from. -/
  sourceDir : String
  /-- The directory below which every target has one of its own. -/
  outputDir : String
  targets : List String
  verifyTools : Bool := false
  backendOptions : OrderedMap String (OrderedMap String String) := .empty

namespace Request

/-- The directory of a file. -/
def directoryOf (path : String) : String :=
  match Files.Path.parent? path with
  | some "" | none => "."
  | some directory => directory

/-- A request that reads scripts from the model's directory. -/
def forModel (modelPath outputDir : String) (targets : List String) : Request :=
  { modelPath, sourceDir := directoryOf modelPath, outputDir, targets }

def settingsFor (r : Request) (target : String) : Settings :=
  { verifyTools := r.verifyTools, options := (r.backendOptions.get? target).getD .empty }

/-- The name of the model: that of its file. -/
def modelName (r : Request) : String := (Files.Path.stem? r.modelPath).getD "model"

end Request
end Provision
