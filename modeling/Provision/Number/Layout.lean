import Provision.Number.Shortest

/-! Written doubles.

All texts of a double start from its shortest decimal; they differ in where an
exponent begins, in how it is written, and in whether a whole number keeps a
fraction. Three layouts are in use: the plain one for values, which has no
exponent, the one for keys of a document, and the one for written JSON. -/
namespace Provision.Double

/-- How a double is written. -/
structure Layout where
  /-- Whether a number below ten to this power, and not below a tenth of it, has no
  exponent. -/
  positional : Int → Bool
  /-- What follows a whole number without exponent. -/
  whole : String
  /-- What comes before a positive exponent. -/
  plus : String
  tie : Tie
  /-- The text of a positive infinity. -/
  infinity : String
  notANumber : String

/-- Values: no exponent and no fraction where there is none. -/
def plainLayout : Layout :=
  { positional := fun _ => true, whole := "", plus := "", tie := .up
    infinity := "inf", notANumber := "NaN" }

/-- Keys: an exponent from `1e16` on and below `1e-5`. -/
def keyLayout : Layout :=
  { positional := fun k => -5 < k && k ≤ 16, whole := ".0", plus := "", tie := .even
    infinity := ".inf", notANumber := ".nan" }

/-- JSON: as keys, with a sign before every exponent. -/
def jsonLayout : Layout :=
  { positional := fun k => -5 < k && k ≤ 16, whole := ".0", plus := "+", tie := .even
    infinity := "null", notANumber := "null" }

def zeros (n : Nat) : String := String.ofList (List.replicate n '0')

/-- Digits with the point after the first `k` of them. -/
def Layout.positionalText (l : Layout) (digits : List Char) (k : Int) : String :=
  if k ≤ 0 then "0." ++ zeros (-k).toNat ++ String.ofList digits
  else if digits.length ≤ k then
    String.ofList digits ++ zeros (k.toNat - digits.length) ++ l.whole
  else String.ofList (digits.take k.toNat) ++ "." ++ String.ofList (digits.drop k.toNat)

/-- One digit before the point and an exponent. -/
def Layout.exponentText (l : Layout) (digits : List Char) (k : Int) : String :=
  let fraction := String.ofList (digits.drop 1)
  String.ofList (digits.take 1) ++ (if fraction.isEmpty then "" else "." ++ fraction) ++ "e" ++
    (if k < 1 then "-" else l.plus) ++ toString (k - 1).natAbs

def Layout.write (l : Layout) : Double → String
  | .nan => l.notANumber
  | .infinite negative => (if negative then "-" else "") ++ l.infinity
  | .finite negative m e =>
    let sign := if negative then "-" else ""
    if m = 0 then sign ++ "0" ++ l.whole
    else
      let d := shortest l.tie m e
      let digits := Nat.toDigits 10 d.digits
      let k := (digits.length : Int) + d.exponent
      sign ++ (if l.positional k then l.positionalText digits k else l.exponentText digits k)

/-- The text of a double as a value. -/
def plain (x : Double) : String := plainLayout.write x

/-- The text of a double as a key. -/
def keyText (x : Double) : String := keyLayout.write x

/-- The text of a double in JSON. -/
def jsonText (x : Double) : String := jsonLayout.write x

end Provision.Double
