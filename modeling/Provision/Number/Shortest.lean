import Provision.Number.Double

/-! The shortest decimal that reads back.

Every real in an interval around a double rounds to it. Among the decimals of that
interval the ones with the fewest digits are taken, and of those the nearest. The
search goes through the decimal grids from coarse to fine and looks only at the
two neighbours of the number on each, in exact arithmetic. -/
namespace Provision.Double

/-- A decimal `digits · 10 ^ exponent`. -/
structure Decimal where
  digits : Nat
  exponent : Int
  deriving DecidableEq, Repr, Inhabited

/-- What happens to a number in the middle between two shortest decimals. -/
inductive Tie where
  | up
  | even
  deriving DecidableEq, Repr

/-- The reals that round to a double, all as multiples of one unit: the ends, the
number itself, the unit as a quotient, and whether the ends belong to it. -/
structure Interval where
  low : Nat
  value : Nat
  high : Nat
  unitNum : Nat
  unitDen : Nat
  closed : Bool

/-- In units of a quarter of the significand's unit. The gap below a power of two
is half as wide. -/
def interval (m : Nat) (e : Int) : Interval :=
  let low := if m = leastSignificand && minExponent < e then 4 * m - 1 else 4 * m - 2
  let q := e - 2
  { low, value := 4 * m, high := 4 * m + 2, closed := m % 2 == 0
    unitNum := if 0 ≤ q then Nat.pow 2 q.toNat else 1
    unitDen := if 0 ≤ q then 1 else Nat.pow 2 (-q).toNat }

/-- The largest power of ten that is at most `num / den`. -/
def decimalExponent (num den : Nat) : Int :=
  if den ≤ num then (decimalLength (num / den) : Int) - 1
  else
    let l := decimalLength (den / num) - 1
    if den = num * Nat.pow 10 l then -(l : Int) else -(l : Int) - 1

namespace Interval

/-- `n · 10 ^ p` and `k` units, over one denominator. -/
def scaled (i : Interval) (n : Nat) (p : Int) (k : Nat) : Nat × Nat :=
  if 0 ≤ p then (n * Nat.pow 10 p.toNat * i.unitDen, k * i.unitNum)
  else (n * i.unitDen, k * i.unitNum * Nat.pow 10 (-p).toNat)

/-- Whether `n · 10 ^ p` rounds to the number. -/
def holds (i : Interval) (p : Int) (n : Nat) : Bool :=
  let lo := i.scaled n p i.low
  let hi := i.scaled n p i.high
  if i.closed then lo.2 ≤ lo.1 && hi.1 ≤ hi.2 else lo.2 < lo.1 && hi.1 < hi.2

/-- The neighbour below the number on the grid of `10 ^ p`. -/
def below (i : Interval) (p : Int) : Nat :=
  let s := i.scaled 1 p i.value
  s.2 / s.1

/-- Whether the number is nearer to `n + 1` than to `n` on the grid of `10 ^ p`. -/
def nearerAbove (i : Interval) (tie : Tie) (p : Int) (n : Nat) : Bool :=
  let down := i.scaled n p i.value
  let up := i.scaled (n + 1) p i.value
  let toDown := down.2 - down.1
  let toUp := up.1 - up.2
  toUp < toDown || (toUp == toDown && (tie == .up || n % 2 == 1))

/-- The neighbour on the grid of `10 ^ p` that rounds to the number, the nearer one
if both do. -/
def onGrid (i : Interval) (tie : Tie) (p : Int) : Option Nat :=
  let n := i.below p
  match i.holds p n, i.holds p (n + 1) with
  | true, true => some (if i.nearerAbove tie p n then n + 1 else n)
  | true, false => some n
  | false, true => some (n + 1)
  | false, false => none

/-- The first grid with a decimal that rounds to the number. -/
def search (i : Interval) (tie : Tie) : Nat → Int → Decimal
  | 0, p => ⟨i.below p, p⟩
  | fuel + 1, p =>
    match i.onGrid tie p with
    | some n => ⟨n, p⟩
    | none => i.search tie fuel (p - 1)

end Interval

/-- Zeros at the end moved into the exponent. -/
def Decimal.trimmed : Nat → Decimal → Decimal
  | 0, d => d
  | fuel + 1, d =>
    if d.digits % 10 = 0 && d.digits ≠ 0 then trimmed fuel ⟨d.digits / 10, d.exponent + 1⟩ else d

/-- The shortest decimal for `m · 2 ^ e`, which is not zero. Seventeen digits are
always enough. -/
def shortest (tie : Tie) (m : Nat) (e : Int) : Decimal :=
  let i := interval m e
  (i.search tie 18 (decimalExponent (i.value * i.unitNum) i.unitDen)).trimmed 20

end Provision.Double
