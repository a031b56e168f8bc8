import Provision.Data.Sorting
import Provision.Fault
import Provision.Text.Printable
import Provision.Yaml.Typed

/-! Configurations.

A configuration gives what a command line leaves open. A `Draft` is what its document
says; it becomes a `Config` if every target has a name and every option is a scalar.
Fields that are not known are kept by name. -/
namespace Provision

structure Config where
  targets : Option (List String) := none
  outputDir : Option String := none
  sourceDir : Option String := none
  verifyTools : Option Bool := none
  /-- The options of every backend. -/
  backends : OrderedMap String (OrderedMap String String) := .empty
  /-- The names of other fields in their order. -/
  unknown : List String := []
  deriving Inhabited

namespace Config

structure Draft where
  targets : Option (List String) := none
  outputDir : Option String := none
  sourceDir : Option String := none
  verifyTools : Option Bool := none
  backends : OrderedMap String (OrderedMap String Yaml.Value) := .empty
  unknown : List String := []

/-! ### From a document -/

def fields : List String := ["targets", "output_dir", "source_dir", "verify_tools", "backends"]

/-- Adds a name to those in order. -/
def insertName (name : String) (names : List String) : List String :=
  if name ∈ names then names else insertSorted (fun a b => !(decide (b < a))) name names

namespace Draft
open Yaml (Node Value)

def addField (draft : Draft) (name : String) (n : Node) : Except Yaml.Fault Draft := do
  match name with
  | "targets" => return { draft with targets := ← n.optional (Node.listOf Node.text) }
  | "output_dir" => return { draft with outputDir := ← n.optional Node.text }
  | "source_dir" => return { draft with sourceDir := ← n.optional Node.text }
  | "verify_tools" => return { draft with verifyTools := ← n.optional Node.boolean }
  | "backends" => return { draft with backends := ← n.mapOf (Node.mapOf Value.ofNode) }
  | _ =>
    if (← Value.ofNode n).hasTag then throw .misplacedTag
    return { draft with unknown := insertName name draft.unknown }

/-- Adds fields one by one. `seen` are the names of those before. -/
def addFields (draft : Draft) (seen : List String) : List (Node × Node) → Except Yaml.Fault Draft
  | [] => .ok draft
  | (k, v) :: rest => do
    let name ← k.text
    if name ∈ fields && name ∈ seen then throw (.repeatedField name)
    addFields (← draft.addField name v) (name :: seen) rest

def parse (text : String) : Except Yaml.Fault Draft := do
  match ← Node.parse text with
  | some n => addFields {} [] (← n.entries)
  | none => return {}

/-! ### Validation -/

def validateTargets (draft : Draft) : Except Fault Unit :=
  match (draft.targets.getD []).findIdx? fun t => (Text.trim t).isEmpty with
  | some i => .error (.emptyConfigTarget i)
  | none => .ok ()

def optionText (backend key : String) (v : Value) : Except Fault String :=
  match v.text? with
  | some text => .ok text
  | none => .error (.nonScalarOption backend key)

def optionTexts (backend : String) (options : OrderedMap String Value) :
    Except Fault (OrderedMap String String) :=
  return .ofList (← options.toList.mapM fun (key, v) => return (key, ← optionText backend key v))

def validate (draft : Draft) : Except Fault Config := do
  draft.validateTargets
  let backends ← draft.backends.toList.mapM fun (backend, options) =>
    return (backend, ← optionTexts backend options)
  return { draft with backends := .ofList backends }

end Draft
end Config
end Provision
