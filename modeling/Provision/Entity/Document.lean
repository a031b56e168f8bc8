import Provision.Entity.Builder
import Provision.Entity.BuiltIn
import Provision.Fault
import Provision.Files.Guard

/-! From a document to an entity graph.

A mapping becomes an entity with a child for each entry, a sequence one with children
named by their index, a scalar a leaf; tags make no difference. A later document is
merged into an earlier one: its types join those that are there, every other top-level
entry replaces what had its name. -/
namespace Provision.EntityGraph.Builder
open Yaml (Value)

/-- The name that a key gives to an entity. -/
def keyName (k : Value) : Except ModelFault String :=
  match k.text? with
  | some name => .ok name
  | none => .error (.unsupportedKey k.shown)

/-- The value of a leaf. An integer that is no signed word counts as a float. -/
def scalar : Value → Option Scalar
  | .string s => some (.string s)
  | .boolean b => some (.boolean b)
  | .integer i => some (if i < Numeral.halfWordCount then .integer (.ofInt i) else .float (.ofInt i))
  | .float x => some (.float x)
  | _ => none

mutual

/-- Adds a value below an entity. -/
def addValue (parent : EntityId) (name : String) : Value → Builder → Except ModelFault Builder
  | .mapping entries, b =>
    let (id, b) := b.add parent name none
    addEntries id entries b
  | .sequence items, b =>
    let (id, b) := b.add parent name none
    addItems id 0 items b
  | .tagged _ v, b => addValue parent name v b
  | v, b => .ok (b.add parent name (scalar v)).2

def addEntries (parent : EntityId) : List (Value × Value) → Builder → Except ModelFault Builder
  | [], b => .ok b
  | (k, v) :: rest, b => do
    let name ← keyName k
    addEntries parent rest (← addValue parent name v b)

def addItems (parent : EntityId) (index : Nat) : List Value → Builder → Except ModelFault Builder
  | [], b => .ok b
  | v :: rest, b => do addItems parent (index + 1) rest (← addValue parent (toString index) v b)

end

/-- Whether a top-level entry holds types. -/
def isNamespace (name : String) : Bool := name = Key.componentTypes || name = Key.relationTypes

/-- Merges one top-level entry. -/
def mergeEntry (b : Builder) (entry : Value × Value) : Except ModelFault Builder := do
  let name ← keyName entry.1
  match isNamespace name, b.child? root name, entry.2 with
  | true, some types, .mapping definitions => addEntries types definitions b
  | _, _, v => addValue root name v b

def mergeDocument (b : Builder) (entries : List (Value × Value)) : Except ModelFault Builder :=
  entries.foldlM mergeEntry b

end Provision.EntityGraph.Builder

namespace Provision.EntityGraph
open Yaml (Value)

/-- The entries of a document. A document without content has none. -/
def topLevel : Value → Except ModelFault (List (Value × Value))
  | .mapping entries => .ok entries
  | .null => .ok []
  | _ => .error .rootNotMapping

/-- The graph of a document, on top of the built-in types or by itself. -/
def ofValue (builtIn : Bool) (v : Value) : Except ModelFault EntityGraph := do
  let start ← Builder.start.mergeDocument (if builtIn then BuiltIn.document else [])
  let b ← start.mergeDocument (← topLevel v)
  return b.build

/-- The graph of a written document. `origin` names the document in messages. -/
def parse (builtIn : Bool) (origin text : String) : Except Fault EntityGraph :=
  match Value.parse text with
  | .error cause => .error (.unreadableModel origin (.syntaxFault cause))
  | .ok v => (ofValue builtIn v).mapError (.unreadableModel origin)

/-! ### Files -/

variable {m : Type → Type} [Monad m]

/-- Reads a model together with the built-in types. -/
def read (fs : FileSystem m) (path : String) : ExceptT Fault m EntityGraph := do
  unless ← fs.leads path do throw (.unreadableModel path .missingFile)
  ExceptT.adapt (fun e => .unreadableModel path (.refused e.message))
    (Files.requireRegular fs path "model file")
  let text ← ExceptT.adapt (fun e => .unreadableModel path (.refused e.message)) (fs.readText path)
  ofExcept (parse true path text)

end Provision.EntityGraph
