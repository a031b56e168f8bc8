import Provision.Number.Double

/-! Reading numerals.

A natural is one or more digits of its radix, an integer may have a sign in front.
A decimal fraction has digits before or after its point and an optional exponent;
it reads as the nearest double. Nothing may be left over. -/
namespace Provision.Numeral

/-- The value of a digit below the radix; letters of both cases count from ten. -/
def digit? (radix : Nat) (c : Char) : Option Nat :=
  let v :=
    if c.isDigit then c.toNat - '0'.toNat
    else if c.isLower then c.toNat - 'a'.toNat + 10
    else if c.isUpper then c.toNat - 'A'.toNat + 10
    else radix
  if v < radix then some v else none

/-- The value of the digits, read on from `acc`. -/
def digitsFrom? (radix acc : Nat) : List Char → Option Nat
  | [] => some acc
  | c :: rest => (digit? radix c).bind fun d => digitsFrom? radix (acc * radix + d) rest

/-- One or more digits. -/
def nat? (radix : Nat) (cs : List Char) : Option Nat :=
  if cs.isEmpty then none else digitsFrom? radix 0 cs

/-- Digits with an optional sign. -/
def int? (radix : Nat) : List Char → Option Int
  | '-' :: rest => (nat? radix rest).map fun n => -(n : Int)
  | '+' :: rest => (nat? radix rest).map Int.ofNat
  | cs => (nat? radix cs).map Int.ofNat

/-- An integer between two bounds. -/
def within? (low high : Int) (i : Int) : Option Int :=
  if low ≤ i && i ≤ high then some i else none

/-- The number of words of 64 bits, and half of it. -/
def wordCount : Int := 0x10000000000000000
def halfWordCount : Int := 0x8000000000000000

def int64? (cs : List Char) : Option Int64 :=
  ((int? 10 cs).bind (within? (-halfWordCount) (halfWordCount - 1))).map Int64.ofInt

/-- The characters as a prefix of digits and the rest. -/
def splitDigits (cs : List Char) : List Char × List Char := cs.span Char.isDigit

/-- The exponent after a fraction, zero where there is none. -/
def exponent? : List Char → Option Int
  | [] => some 0
  | c :: rest => if c = 'e' || c = 'E' then int? 10 rest else none

/-- Digits, an optional point with digits, an optional exponent. -/
def decimal? (negative : Bool) (cs : List Char) : Option Double :=
  let (whole, rest) := splitDigits cs
  let (fraction, rest) :=
    match rest with
    | '.' :: rest => splitDigits rest
    | rest => ([], rest)
  if whole.isEmpty && fraction.isEmpty then none
  else do
    let e ← exponent? rest
    let digits ← digitsFrom? 10 0 (whole ++ fraction)
    return .ofDecimal negative digits (e - fraction.length)

/-- A decimal, or one of the names of the numbers that are not finite, in letters
of any case. -/
def unsigned? (negative : Bool) (cs : List Char) : Option Double :=
  let name := String.ofList (cs.map Char.toLower)
  if name = "inf" || name = "infinity" then some (.infinite negative)
  else if name = "nan" then some .nan
  else decimal? negative cs

/-- A double with an optional sign. -/
def double? : List Char → Option Double
  | '-' :: rest => unsigned? true rest
  | '+' :: rest => unsigned? false rest
  | cs => unsigned? false cs

end Provision.Numeral
