import Provision.Number.Layout
import Provision.Number.Numeral
import Provision.Text.Identifier
import Provision.Text.Printable

/-! Scalars and what they can be read as.

A scalar is the value of a leaf of a model document. A `Reading` says which type is
asked for and which scalars have it: a string accepts everything, numbers and
booleans also accept the strings that spell them, between blanks. -/
namespace Provision

inductive Scalar where
  | string (s : String)
  | integer (i : Int64)
  | float (x : Double)
  | boolean (b : Bool)
  deriving DecidableEq, Repr, Inhabited

namespace Scalar

def text : Scalar → String
  | .string s => s
  | .integer i => toString i.toInt
  | .float x => x.plain
  | .boolean b => if b then "true" else "false"

def typeName : Scalar → String
  | .string _ => "string"
  | .integer _ => "integer"
  | .float _ => "float"
  | .boolean _ => "boolean"

def string? : Scalar → Option String
  | .string s => some s
  | _ => none

end Scalar

/-- A type of values that scalars can be read as. -/
structure Reading (α : Type) where
  /-- How messages name the type. -/
  expected : String
  read : Scalar → Option α

namespace Reading

def string : Reading String := ⟨"string", fun s => some s.text⟩

def int64? : Scalar → Option Int64
  | .integer i => some i
  | .string s => Numeral.int64? (Text.trimChars s.toList)
  | _ => none

def integer : Reading Int64 := ⟨"integer", int64?⟩

/-- The integers from 0 to 65535. -/
def port : Reading UInt16 :=
  ⟨"port number", fun s => (int64? s).bind fun i =>
    if 0 ≤ i.toInt && i.toInt < 65536 then some (UInt16.ofNat i.toInt.toNat) else none⟩

def float : Reading Double :=
  ⟨"float", fun
    | .float x => some x
    | .integer i => some (.ofInt i.toInt)
    | .string s => Numeral.double? (Text.trimChars s.toList)
    | .boolean _ => none⟩

/-- The words for a truth value, in letters of any case. -/
def word? (s : String) : Option Bool :=
  let w := Text.lower (Text.trim s)
  if w = "true" || w = "yes" then some true
  else if w = "false" || w = "no" then some false
  else none

def boolean : Reading Bool :=
  ⟨"boolean", fun
    | .boolean b => some b
    | .string s => word? s
    | _ => none⟩

end Reading
end Provision
