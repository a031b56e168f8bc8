import Provision.Text.Quoted
import Provision.Yaml.Fault

/-! What can go wrong, and how it is told.

A `Fault` is the cause of a failure. Model faults name the offending entity, file
faults the path. An `Error` is a fault together with what was being done, outermost
first; its full text is all of them joined by colons. -/
namespace Provision

/-- Why a model document cannot be read. -/
inductive ModelFault where
  | missingFile
  | syntaxFault (cause : Yaml.Fault)
  | rootNotMapping
  | unsupportedKey (shown : String)
  | refused (details : String)
  deriving DecidableEq, Repr

def ModelFault.message : ModelFault → String
  | .missingFile => "file does not exist"
  | .syntaxFault cause => cause.message
  | .rootNotMapping => "document root must be a mapping"
  | .unsupportedKey shown => "unsupported mapping key: " ++ shown
  | .refused details => details

inductive Fault where
  | unreadableModel (path : String) (cause : ModelFault)
  | unresolvableType (entity : String) (typeName : Option String)
  | unknownComponent (source relation target : String)
  | inheritanceTooDeep (typeName : String) (limit : Nat)
  | hostingCycle (component : String)
  | multipleHosts (component : String) (hosts : List String)
  | missingHost (component : String)
  | typeMismatch (entity property expected found : String)
  | environment (target reason : String)
  | unsuitableModel (target reason : String)
  | unreadableFile (path details : String)
  | unwritableFile (path details : String)
  | pathViolation (path reason : String)
  | lifecycleOrder (expected requested : String)
  | unsupportedKind (target kind entity : String)
  | unknownTarget (name : String) (available : List String)
  | serialization (format details : String)
  | invalid (message : String)
  | notRegularFile (path : String)
  | malformedConfig (cause : Yaml.Fault)
  | emptyConfigTarget (index : Nat)
  | nonScalarOption (backend key : String)
  | noTargets
  | other (message : String)
  deriving DecidableEq, Repr

/-- Advice at the end of a message. -/
def hint (advice : String) : String := "\n\n💡 Hint: " ++ advice

def Fault.message : Fault → String
  | .unreadableModel path cause =>
    "Failed to parse deployment model: " ++ path ++ "\nDetails: " ++ cause.message ++
      hint "Please verify that the model file is valid YAML"
  | .unresolvableType entity typeName =>
    "Instance '" ++ entity ++ "' has no resolvable type" ++
      (match typeName with
        | some t => " ('" ++ t ++ "')"
        | none => "") ++
      hint "Declare the type under component_types or relation_types"
  | .unknownComponent source relation target =>
    "Relation '" ++ relation ++ "' of '" ++ source ++ "' points to unknown component '" ++
      target ++ "'"
  | .inheritanceTooDeep typeName limit =>
    "Inheritance chain of type '" ++ typeName ++ "' exceeds " ++ toString limit ++ " levels"
  | .hostingCycle component =>
    "Hosted-on cycle detected at component '" ++ component ++ "'" ++
      hint "A component must be hosted on a chain that ends at a compute node"
  | .multipleHosts component hosts =>
    "Component '" ++ component ++ "' declares more than one hosted_on relation (" ++
      Text.quotedList hosts ++ ")"
  | .missingHost component => "Component '" ++ component ++ "' is not hosted on a compute node"
  | .typeMismatch entity property expected found =>
    "Property '" ++ property ++ "' of '" ++ entity ++ "' cannot be read as " ++ expected ++
      " (value: '" ++ found ++ "')"
  | .environment target reason =>
    "Environment check for target '" ++ target ++ "' failed: " ++ reason ++
      hint "Install the missing tool or disable tool verification"
  | .unsuitableModel target reason =>
    "Model check for target '" ++ target ++ "' failed: " ++ reason
  | .unreadableFile path details =>
    "Failed to read file: " ++ path ++ "\nDetails: " ++ details ++
      hint "Please verify that the artifact exists relative to the source directory"
  | .unwritableFile path details =>
    "Failed to write to file: " ++ path ++ "\nDetails: " ++ details ++
      hint "Please verify that the output directory is writable"
  | .pathViolation path reason => "Security violation: " ++ path ++ "\nReason: " ++ reason
  | .lifecycleOrder expected requested =>
    "Lifecycle phase '" ++ requested ++ "' invoked out of order (expected '" ++ expected ++ "')"
  | .unsupportedKind target kind entity =>
    "Target '" ++ target ++ "' does not support " ++ kind ++ " '" ++ entity ++ "'"
  | .unknownTarget name available =>
    "Unknown target '" ++ name ++ "'" ++
      hint ("Available targets: " ++ ", ".intercalate available)
  | .serialization format details =>
    "Failed to serialize " ++ format ++ " output\nDetails: " ++ details
  | .invalid message => "Validation error: " ++ message
  | .notRegularFile path => path ++ " is not a regular file"
  | .malformedConfig cause => cause.message
  | .emptyConfigTarget index =>
    "Invalid config: targets[" ++ toString index ++ "] must not be empty." ++
      hint "List backend names such as \"heat\" or \"kubernetes\"."
  | .nonScalarOption backend key =>
    "Invalid config: backends." ++ backend ++ "." ++ key ++ " must be a scalar value." ++
      hint "Backend options are plain strings, numbers or booleans."
  | .noTargets =>
    "No targets requested." ++
      hint "Pass -t <target> or list targets in the config file (see --list-targets)"
  | .other message => message

/-- A fault and what was being done, outermost first. -/
structure Error where
  context : List String := []
  fault : Fault
  deriving DecidableEq, Repr

namespace Error

instance : Coe Fault Error := ⟨fun fault => { fault }⟩

/-- Puts what was being done in front. -/
def within (e : Error) (doing : String) : Error := { e with context := doing :: e.context }

/-- The texts from the outermost context to the cause. -/
def chain (e : Error) : List String := e.context ++ [e.fault.message]

/-- The outermost text. -/
def summary (e : Error) : String := e.context.headD e.fault.message

/-- The texts below the outermost one. -/
def causes (e : Error) : List String := e.chain.drop 1

def message (e : Error) : String := ": ".intercalate e.chain

end Error
end Provision
