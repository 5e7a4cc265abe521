/-
# Reading decimal literals

A literal is a sign, digits around a point and an exponent. Its value is the
binary number nearest to it. Exponents can be far larger than any number, so
the magnitude is looked at before any power of ten is taken.

Key definitions: `Decimal.natOfDigits`, `Decimal.ofLiteral`.
-/
import Curtail.Decimal.Binary

namespace Curtail
namespace Decimal

/-- The value of a digit, of either case, in bases up to 36. -/
def digitValue (c : Char) : Nat :=
  if c.isDigit then c.toNat - '0'.toNat
  else if c.isLower then c.toNat - 'a'.toNat + 10
  else c.toNat - 'A'.toNat + 10

/-- The value of a row of digits in base `base`. -/
def natOfDigits (base : Nat) (digits : List Char) : Nat :=
  digits.foldl (fun n c => n * base + digitValue c) 0

/-- `significand * 10 ^ exponent`, where `significand` has `width` digits, as a binary number. -/
def toBinary (negative : Bool) (significand : Nat) (width : Nat) (exponent : Int) : Float :=
  if significand = 0 || width + exponent < -400 then nearest negative 0 1
  else if 400 < exponent then nearest negative (Nat.pow 10 400) 1
  else nearest negative (significand * Nat.pow 10 exponent.toNat) (Nat.pow 10 (-exponent).toNat)

/-- A sign and what follows it. -/
def splitSign : List Char → Bool × List Char
  | '-' :: cs => (true, cs)
  | '+' :: cs => (false, cs)
  | cs => (false, cs)

/-- The exponent that `cs` states after its first character, which is a letter; zero if it states
none. -/
def exponentOf (cs : List Char) : Int :=
  let (negative, digits) := splitSign (cs.drop 1)
  let n := natOfDigits 10 digits
  if negative then -(n : Int) else n

/-- The number nearest to a literal: an optional sign, digits with or without a point, and an
optional exponent. -/
def ofLiteral (literal : List Char) : Float :=
  let (negative, cs) := splitSign literal
  let whole := cs.takeWhile Char.isDigit
  let cs := cs.dropWhile Char.isDigit
  let fraction := if cs.head? = some '.' then (cs.drop 1).takeWhile Char.isDigit else []
  let cs := if cs.head? = some '.' then (cs.drop 1).dropWhile Char.isDigit else cs
  let digits := whole ++ fraction
  toBinary negative (natOfDigits 10 digits) digits.length (exponentOf cs - fraction.length)

end Decimal
end Curtail
