/-! Double precision numbers.

A finite number is a sign, a significand and a power of two; the significand has
53 bits unless the power is the smallest there is. Rounding a quotient goes to the
nearest such number and, from the middle, to the even significand, all in exact
arithmetic on naturals. -/
namespace Provision

/-- A number of the binary64 format. The finite numbers are `±m · 2 ^ e`. -/
inductive Double where
  | finite (negative : Bool) (significand : Nat) (exponent : Int)
  | infinite (negative : Bool)
  | nan
  deriving DecidableEq, Repr, Inhabited

namespace Double

/-- The smallest power of two of a significand. -/
def minExponent : Int := -1074

/-- The largest power of two of a significand. -/
def maxExponent : Int := 971

/-- The smallest significand of 53 bits. -/
def leastSignificand : Nat := 0x10000000000000

def zero (negative : Bool) : Double := .finite negative 0 minExponent

/-- A quotient `num / den` in units of `2 ^ e`. -/
def inUnits (num den : Nat) (e : Int) : Nat × Nat :=
  if 0 ≤ e then (num, den * Nat.pow 2 e.toNat) else (num * Nat.pow 2 (-e).toNat, den)

/-- The nearest natural to a quotient; the middle goes to the even one. -/
def nearest (num den : Nat) : Nat :=
  let q := num / den
  let r := num % den
  if den < 2 * r || (2 * r == den && q % 2 == 1) then q + 1 else q

/-- The power of two at which the quotient has a significand of 53 bits, or the
smallest one. -/
def unitExponent (num den : Nat) : Int :=
  let e := (num.log2 : Int) - den.log2 - 53
  let u := inUnits num den e
  max minExponent (if 2 * leastSignificand ≤ u.1 / u.2 then e + 1 else e)

/-- The double nearest to `num / den`. -/
def ofQuotient (negative : Bool) (num den : Nat) : Double :=
  if num = 0 then zero negative
  else
    let e := unitExponent num den
    let u := inUnits num den e
    let m := nearest u.1 u.2
    let (m, e) := if m = 2 * leastSignificand then (leastSignificand, e + 1) else (m, e)
    if maxExponent < e then .infinite negative else .finite negative m e

/-- The number of decimal digits, none for zero. -/
def decimalLength (n : Nat) : Nat := if n = 0 then 0 else (Nat.toDigits 10 n).length

/-- The double nearest to `digits · 10 ^ exponent`. A magnitude far outside the
format's range is settled before any power is taken. -/
def ofDecimal (negative : Bool) (digits : Nat) (exponent : Int) : Double :=
  let magnitude := (decimalLength digits : Int) + exponent
  if digits = 0 || magnitude < -400 then zero negative
  else if 400 < magnitude then .infinite negative
  else if 0 ≤ exponent then ofQuotient negative (digits * Nat.pow 10 exponent.toNat) 1
  else ofQuotient negative digits (Nat.pow 10 (-exponent).toNat)

def ofInt (i : Int) : Double := ofQuotient (i < 0) i.natAbs 1

def isFinite : Double → Bool
  | .finite .. => true
  | _ => false

/-- Equality as numbers: the two zeros are one number, and not-a-number is taken
as equal to itself. -/
def same : Double → Double → Bool
  | .finite _ 0 _, .finite _ 0 _ => true
  | x, y => x == y

end Double
end Provision
