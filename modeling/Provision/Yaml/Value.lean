import Provision.Number.Layout
import Provision.Text.Quoted
import Provision.Yaml.Node
import Provision.Yaml.Plain
import Provision.Yaml.Token.Lexer

/-! Values of documents.

A value is a node whose scalars have got their meaning. Tags of the core types force it,
other tags of the document stay with the value. No mapping has a key twice, where keys
are compared as values. -/
namespace Provision.Yaml

inductive Value where
  | null
  | boolean (b : Bool)
  | integer (i : Int)
  | float (x : Double)
  | string (s : String)
  | sequence (items : List Value)
  | mapping (entries : List (Value × Value))
  | tagged (tag : String) (value : Value)
  deriving Inhabited

namespace Value

/-! ### Equality -/

mutual

/-- Equality of values. Mappings are equal if they have the same entries in any order. -/
def same : Value → Value → Bool
  | .null, .null => true
  | .boolean a, .boolean b => a == b
  | .integer a, .integer b => a == b
  | .float a, .float b => a.same b
  | .string a, .string b => a == b
  | .sequence a, .sequence b => sameItems a b
  | .mapping a, .mapping b => a.length == b.length && coveredBy a b
  | .tagged s a, .tagged t b => s == t && a.same b
  | _, _ => false

def sameItems : List Value → List Value → Bool
  | [], [] => true
  | a :: as, b :: bs => a.same b && sameItems as bs
  | _, _ => false

/-- Whether every entry is also one of some others. -/
def coveredBy : List (Value × Value) → List (Value × Value) → Bool
  | [], _ => true
  | (k, v) :: rest, others =>
    (others.any fun e => k.same e.1 && v.same e.2) && coveredBy rest others

end

/-! ### As texts -/

/-- The text of a string, a truth value or a number. -/
def text? : Value → Option String
  | .string s => some s
  | .boolean b => some (toString b)
  | .integer i => some (toString i)
  | .float x => some x.keyText
  | _ => none

mutual

/-- Whether there is a tag on the value or inside of it. -/
def hasTag : Value → Bool
  | .tagged .. => true
  | .sequence items => hasTagInItems items
  | .mapping entries => hasTagInEntries entries
  | _ => false

def hasTagInItems : List Value → Bool
  | [] => false
  | v :: rest => v.hasTag || hasTagInItems rest

def hasTagInEntries : List (Value × Value) → Bool
  | [] => false
  | (k, v) :: rest => k.hasTag || v.hasTag || hasTagInEntries rest

end

/-! ### In messages -/

mutual

/-- A value as messages show it. -/
def shown : Value → String
  | .null => "Null"
  | .boolean b => "Bool(" ++ toString b ++ ")"
  | .integer i => "Number(" ++ toString i ++ ")"
  | .float x => "Number(" ++ x.keyText ++ ")"
  | .string s => "String(" ++ Text.quoted s ++ ")"
  | .sequence items => "Sequence [" ++ ", ".intercalate (shownItems items) ++ "]"
  | .mapping entries => "Mapping \x7b" ++ ", ".intercalate (shownEntries entries) ++ "\x7d"
  | .tagged tag v => "TaggedValue \x7b tag: !" ++ tag ++ ", value: " ++ v.shown ++ " \x7d"

def shownItems : List Value → List String
  | [] => []
  | v :: rest => v.shown :: shownItems rest

/-- Keys of the usual types are shown without their type. -/
def shownEntries : List (Value × Value) → List String
  | [] => []
  | (k, v) :: rest =>
    let key :=
      match k with
      | .string s => Text.quoted s
      | k => k.text?.getD k.shown
    (key ++ ": " ++ v.shown) :: shownEntries rest

end

/-! ### Reading -/

/-- The value of a plain scalar without tag. -/
def ofPlain (text : String) : Except Fault Value := do
  if text.isEmpty || Plain.isNull text then return .null
  if let some b := Plain.boolean? text then return .boolean b
  if let some i ← Plain.integer? text.toList then return .integer i
  if Plain.hasLeadingZero text.toList then return .string text
  match Plain.float? text with
  | some x => return .float x
  | none => return .string text

/-- Puts a tag of the document's own around a value. -/
def withTag (tag : Option Tag) (v : Value) : Value :=
  match tag with
  | some (.own name) => .tagged name v
  | _ => v

/-- The value of a scalar. A tag of a core type has it read as that type, and under one
that means nothing it is a string. -/
def ofScalar (tag : Option Tag) (text : String) (style : Style) : Except Fault Value :=
  match tag with
  | some .null => if Plain.isNull text then .ok .null else .error (.wrongTag "null")
  | some .boolean =>
    match Plain.boolean? text with
    | some b => .ok (.boolean b)
    | none => .error (.wrongTag "a boolean")
  | some .integer => do
    match ← Plain.integer? text.toList with
    | some i => return .integer i
    | none => throw (.wrongTag "an integer")
  | some .float =>
    match Plain.float? text with
    | some x => .ok (.float x)
    | none => .error (.wrongTag "a float")
  | some .foreign => .ok (.string text)
  | _ => do return withTag tag (← if style = .plain then ofPlain text else .ok (.string text))

/-- Adds an entry with a new key. -/
def addEntry (entries : List (Value × Value)) (k v : Value) : Except Fault (List (Value × Value)) :=
  if entries.any fun e => e.1.same k then .error .repeatedKey else .ok (entries ++ [(k, v)])

mutual

def ofNode : Node → Except Fault Value
  | .scalar tag text style => ofScalar tag text style
  | .sequence tag items => do return withTag tag (.sequence (← ofItems items))
  | .mapping tag entries => do return withTag tag (.mapping (← ofEntries [] entries))

def ofItems : List Node → Except Fault (List Value)
  | [] => .ok []
  | n :: rest => do
    let v ← ofNode n
    return v :: (← ofItems rest)

def ofEntries (before : List (Value × Value)) :
    List (Node × Node) → Except Fault (List (Value × Value))
  | [] => .ok before
  | (k, v) :: rest => do
    let k ← ofNode k
    let v ← ofNode v
    ofEntries (← addEntry before k v) rest

end

end Value

/-- The document that a text holds, none if the text is empty. -/
def Node.parse (text : String) : Except Fault (Option Node) := do
  match ← Tree.ofTokens (← Token.scan text) with
  | some t => return some (← Node.ofTree t)
  | none => return none

/-- The value that a text holds. An empty text holds null. -/
def Value.parse (text : String) : Except Fault Value := do
  match ← Node.parse text with
  | some n => Value.ofNode n
  | none => return .null

end Provision.Yaml
