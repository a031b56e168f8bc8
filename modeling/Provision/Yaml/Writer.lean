import Provision.Json.Value
import Provision.Yaml.Writer.Scalar

/-! Written documents.

Every entry of a mapping and every item of a sequence starts a line. Mappings are two
columns deeper than what holds them; a sequence below a key is not, and the first entry
behind the dash of an item stays on its line. A key that is long or has a line end is
written behind a sign of its own, and so is then its value. -/
namespace Provision.Yaml

/-- The longest key, in octets, that its value can follow on the line. -/
def simpleKeyLimit : Nat := 128

def isSimpleKey (key : String) : Bool :=
  !key.toList.any isBreak && key.utf8ByteSize ≤ simpleKeyLimit

/-- The next line at a column. A block of lines may have ended its line already. -/
def nextLine (column : Nat) (before : List Char) : List Char :=
  (if before.getLast?.any isBreak then [] else ['\n']) ++ spaces column

/-- Parts below each other at a column, the first one where the text stands. -/
def stacked (column : Nat) : List (List Char) → List Char
  | [] => []
  | [part] => part
  | part :: rest => part ++ nextLine column part ++ stacked column rest

/-- A value that has no parts, for a collection at a column. -/
def writeLeaf (column : Nat) : Json → List Char
  | .null => "null".toList
  | .bool b => (toString b).toList
  | .integer i => (toString i).toList
  | .double x => x.keyText.toList
  | .string s => writeString (column + 2) s
  | .array _ => "[]".toList
  | .object _ => "\x7b\x7d".toList

mutual

/-- A value behind a sign in a collection at a column. -/
def writeInline (column : Nat) : Json → List Char
  | .array (v :: rest) => stacked (column + 2) (writeItems (column + 2) (v :: rest))
  | .object (m :: rest) => stacked (column + 2) (writeEntries (column + 2) (m :: rest))
  | v => writeLeaf column v

/-- A value behind a key of a mapping at a column. -/
def writeBelow (column : Nat) : Json → List Char
  | .array (v :: rest) =>
    '\n' :: spaces column ++ stacked column (writeItems column (v :: rest))
  | .object (m :: rest) =>
    '\n' :: spaces (column + 2) ++ stacked (column + 2) (writeEntries (column + 2) (m :: rest))
  | v => ' ' :: writeLeaf column v

def writeItems (column : Nat) : List Json → List (List Char)
  | [] => []
  | v :: rest => ('-' :: ' ' :: writeInline column v) :: writeItems column rest

def writeEntries (column : Nat) : List (String × Json) → List (List Char)
  | [] => []
  | (key, v) :: rest =>
    (if isSimpleKey key then writeString (column + 2) key ++ ':' :: writeBelow column v
      else
        let first := '?' :: ' ' :: writeString (column + 2) key
        first ++ nextLine column first ++ ':' :: ' ' :: writeInline column v) ::
      writeEntries column rest

end

/-- The document of a value. -/
def write (v : Json) : String :=
  let text :=
    match v with
    | .array (v :: rest) => stacked 0 (writeItems 0 (v :: rest))
    | .object (m :: rest) => stacked 0 (writeEntries 0 (m :: rest))
    | v => writeLeaf 0 v
  String.ofList (text ++ nextLine 0 text)

end Provision.Yaml
