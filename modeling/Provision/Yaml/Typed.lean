import Provision.Data.OrderedMap
import Provision.Yaml.Value

/-! Nodes of an expected type.

Where the type of a node is known, its text need not be given a meaning: any scalar is a
text as it is written. Tags make no difference, except that one for null makes a scalar
null. An empty plain scalar stands for an empty collection. -/
namespace Provision.Yaml.Node

def text : Node → Except Fault String
  | .scalar _ text _ => .ok text
  | _ => .error (.wrongShape "a string")

/-- A plain truth value, or a literal block with its tag. -/
def boolean : Node → Except Fault Bool
  | .scalar tag text style =>
    let tagged := style = .literal && tag = some .boolean
    match if style = .plain || tagged then Plain.boolean? text else none with
    | some b => .ok b
    | none => .error (.wrongShape "a boolean")
  | _ => .error (.wrongShape "a boolean")

def items : Node → Except Fault (List Node)
  | .sequence _ items => .ok items
  | .scalar _ "" .plain => .ok []
  | _ => .error (.wrongShape "a sequence")

def entries : Node → Except Fault (List (Node × Node))
  | .mapping _ entries => .ok entries
  | .scalar _ "" .plain => .ok []
  | _ => .error (.wrongShape "a mapping")

/-- Whether a node says that a value is not given. -/
def isAbsent : Node → Except Fault Bool
  | .scalar none text .plain => .ok (text.isEmpty || Plain.isNull text)
  | .scalar (some .null) text .plain =>
    if Plain.isNull text then .ok true else .error (.wrongTag "null")
  | _ => .ok false

variable {α : Type}

def optional (read : Node → Except Fault α) (n : Node) : Except Fault (Option α) := do
  if ← n.isAbsent then return none
  return some (← read n)

def listOf (read : Node → Except Fault α) (n : Node) : Except Fault (List α) := do
  (← n.items).mapM read

/-- The entries by their keys as texts. The last one of equal keys counts. -/
def mapOf (read : Node → Except Fault α) (n : Node) : Except Fault (OrderedMap String α) := do
  (← n.entries).foldlM (fun m (k, v) => return m.insert (← k.text) (← read v)) .empty

end Provision.Yaml.Node
