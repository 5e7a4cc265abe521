/-
# The fewest decimal digits

A binary number is written with the fewest decimal digits that read back as
the number itself, and among those with the digits nearest to it. All numbers
of an interval around it read back: those closer to it than to any other
number, with the ends of the interval if its mantissa is even.

Key definitions: `Decimal.Digits`, `Decimal.Tie`, `Decimal.shortest`.
-/

namespace Curtail
namespace Decimal

/-- The number `significand * 10 ^ exponent`. -/
structure Digits where
  significand : Nat
  exponent : Int
deriving DecidableEq, Repr

/-- Which of two decimals equally near to a number is taken. -/
inductive Tie where
  | even
  | up
deriving DecidableEq, Repr

/-- The number of decimal digits of a natural number. -/
def digitCount (n : Nat) : Nat := (Nat.toDigits 10 n).length

/-- The place of the point in the decimal form of `num / den`: the least `p` such that the
fraction is below `10 ^ p`. -/
def pointPlace (num den : Nat) : Int :=
  if den ≤ num then digitCount (num / den) else 1 - (digitCount ((den - 1) / num) : Int)

/-- The interval of numbers that read back, and its centre, over a common denominator. -/
structure Interval where
  low : Nat
  centre : Nat
  high : Nat
  unit : Nat
  closed : Bool

/-- The numbers that read back as `mantissa * 2 ^ exponent`; `edge` halves the lower part. -/
def interval (mantissa : Nat) (exponent : Int) (edge : Bool) : Interval :=
  let scale := Nat.pow 2 (exponent - 2).toNat
  { low := (4 * mantissa - if edge then 1 else 2) * scale
    centre := 4 * mantissa * scale
    high := (4 * mantissa + 2) * scale
    unit := Nat.pow 2 (2 - exponent).toNat
    closed := mantissa % 2 == 0 }

/-- Whether `d * 10 ^ k` lies in the interval. -/
def Interval.holds (i : Interval) (d : Nat) (k : Int) : Bool :=
  let x := d * Nat.pow 10 k.toNat * i.unit
  let s := Nat.pow 10 (-k).toNat
  if i.closed then decide (i.low * s ≤ x) && decide (x ≤ i.high * s)
  else decide (i.low * s < x) && decide (x < i.high * s)

/-- The multiple of `10 ^ k` in the interval that is nearest to its centre, if there is one. -/
def Interval.nearestAt (i : Interval) (tie : Tie) (k : Int) : Option Digits :=
  let num := i.centre * Nat.pow 10 (-k).toNat
  let den := i.unit * Nat.pow 10 k.toNat
  let below := num / den
  let twice := 2 * (num % den)
  match i.holds below k, i.holds (below + 1) k with
  | false, false => none
  | true, false => some ⟨below, k⟩
  | false, true => some ⟨below + 1, k⟩
  | true, true =>
    if twice < den || (twice == den && tie == .even && below % 2 == 0) then some ⟨below, k⟩
    else some ⟨below + 1, k⟩

/-- Zeros at the end of the significand moved into the exponent. -/
def Digits.trimZeros : Nat → Digits → Digits
  | 0, d => d
  | fuel + 1, d =>
    if d.significand % 10 = 0 then trimZeros fuel ⟨d.significand / 10, d.exponent + 1⟩ else d

/-- The fewest digits that read back as `mantissa * 2 ^ exponent`, the nearest such digits;
seventeen always suffice. -/
def shortest (tie : Tie) (mantissa : Nat) (exponent : Int) (edge : Bool) : Digits :=
  if mantissa = 0 then ⟨0, 0⟩
  else
    let i := interval mantissa exponent edge
    let place := pointPlace i.centre i.unit
    match (List.range 17).findSome? fun n : Nat => i.nearestAt tie (place - (n + 1)) with
    | some d => d.trimZeros 2
    | none => ⟨0, 0⟩

end Decimal
end Curtail
