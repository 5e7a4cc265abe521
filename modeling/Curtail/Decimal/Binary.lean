/-
# Binary floating-point numbers

A finite number of double precision is `mantissa * 2 ^ exponent` with a sign.
This module takes numbers apart and finds the number nearest to a fraction,
in exact arithmetic on natural numbers.

Key definitions: `Decimal.Parts`, `Decimal.parts`, `Decimal.nearestBits`,
`Decimal.nearest`.
-/

namespace Curtail
namespace Decimal

/-- What a number of double precision stands for. -/
inductive Parts where
  | nan
  | infinite (negative : Bool)
  /-- `mantissa * 2 ^ exponent`; `edge` says that the next smaller number is only half as far
  away as the next larger one. -/
  | finite (negative : Bool) (mantissa : Nat) (exponent : Int) (edge : Bool)
deriving DecidableEq, Repr

/-- The number with the given bits. -/
def partsOfBits (bits : Nat) : Parts :=
  let negative := bits / Nat.pow 2 63 % 2 == 1
  let biased : Nat := bits / Nat.pow 2 52 % 2048
  let fraction : Nat := bits % Nat.pow 2 52
  if biased = 2047 then if fraction = 0 then .infinite negative else .nan
  else if biased = 0 then .finite negative fraction (-1074) false
  else .finite negative (Nat.pow 2 52 + fraction) ((biased : Int) - 1075) (fraction == 0 && biased != 1)

/-- A number taken apart. -/
def parts (x : Float) : Parts := partsOfBits x.toBits.toNat

/-- `num / den` rounded to a whole number, a half to the even neighbour. -/
def roundEven (num den : Nat) : Nat :=
  let whole := num / den
  let twice := 2 * (num % den)
  if twice < den then whole
  else if den < twice then whole + 1
  else whole + whole % 2

/-- `num / den / 2 ^ e` rounded to a whole number. -/
def roundAt (num den : Nat) (e : Int) : Nat :=
  roundEven (num * Nat.pow 2 (-e).toNat) (den * Nat.pow 2 e.toNat)

/-- The least exponent, not below that of the smallest number, at which `num / den` takes at most
53 bits. -/
def fittingExponent (num den : Nat) : Int :=
  let guess : Int := max (-1074) ((Nat.log2 num : Int) - Nat.log2 den - 53)
  if num * Nat.pow 2 (-guess).toNat < den * Nat.pow 2 (guess.toNat + 53) then guess else guess + 1

/-- The bits of the number nearest to `num / den`, of two the one with even mantissa; infinity
if the fraction is too large. -/
def nearestBits (num den : Nat) : Nat :=
  let e := if num = 0 then -1074 else fittingExponent num den
  min ((e + 1074).toNat * Nat.pow 2 52 + roundAt num den e) (2047 * Nat.pow 2 52)

/-- The number nearest to `num / den` with the given sign. -/
def nearest (negative : Bool) (num den : Nat) : Float :=
  Float.ofBits (UInt64.ofNat (nearestBits num den + if negative then Nat.pow 2 63 else 0))

end Decimal
end Curtail
