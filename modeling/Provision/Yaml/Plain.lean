import Provision.Number.Numeral
import Provision.Yaml.Fault

/-! The meaning of plain scalars.

A scalar without quotes and tags may spell null, a truth value, an integer or a float;
any other one is a string. Integers may have a radix mark, and one with a leading zero
that is followed by digits is a string. Integers need not fit a machine word to be
spelled, but beyond 64 bits they are refused up to 128 bits and floats from there on. -/
namespace Provision.Yaml.Plain

def isNull (text : String) : Bool :=
  text = "null" || text = "Null" || text = "NULL" || text = "~"

def boolean? (text : String) : Option Bool :=
  if text = "true" || text = "True" || text = "TRUE" then some true
  else if text = "false" || text = "False" || text = "FALSE" then some false
  else none

/-! ### Numbers -/

def dropSign : List Char → List Char
  | '-' :: rest | '+' :: rest => rest
  | cs => cs

/-- A zero in front of further digits, perhaps behind a sign. -/
def hasLeadingZero (cs : List Char) : Bool :=
  match dropSign cs with
  | '0' :: c :: rest => (c :: rest).all Char.isDigit
  | _ => false

/-- Digits behind an optional radix mark. -/
def magnitude? : List Char → Option Nat
  | '0' :: 'x' :: rest => Numeral.nat? 16 rest
  | '0' :: 'o' :: rest => Numeral.nat? 8 rest
  | '0' :: 'b' :: rest => Numeral.nat? 2 rest
  | cs => Numeral.nat? 10 cs

/-- The integer that a text spells. -/
def spelled? (cs : List Char) : Option Int :=
  if hasLeadingZero cs then none
  else
    match cs with
    | '-' :: rest => (magnitude? rest).map fun n => -(n : Int)
    | '+' :: rest => (magnitude? rest).map Int.ofNat
    | rest => (magnitude? rest).map Int.ofNat

/-- The number of words of 128 bits. -/
def doubleWordCount : Int := 0x100000000000000000000000000000000

/-- The integer that a text stands for, if it stands for one. -/
def integer? (cs : List Char) : Except Fault (Option Int) :=
  match spelled? cs with
  | none => .ok none
  | some i =>
    if -Numeral.halfWordCount ≤ i && i < Numeral.wordCount then .ok (some i)
    else if -doubleWordCount / 2 ≤ i && i < doubleWordCount then .error .numberTooLarge
    else .ok none

/-- A float with a finite value, or the name of a special one. -/
def float? (text : String) : Option Double :=
  let cs := text.toList
  let positive := if cs.head? = some '+' then cs.drop 1 else cs
  let name := String.ofList positive
  if cs.head? = some '+' && (positive.head? = some '+' || positive.head? = some '-') then none
  else if name = ".inf" || name = ".Inf" || name = ".INF" then some (.infinite false)
  else if text = "-.inf" || text = "-.Inf" || text = "-.INF" then some (.infinite true)
  else if text = ".nan" || text = ".NaN" || text = ".NAN" then some .nan
  else (Numeral.double? positive).filter Double.isFinite

end Provision.Yaml.Plain
