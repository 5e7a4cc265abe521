/-
# Writing numbers

The digits of a number are laid out in one of several formats. A format says
which magnitudes are written out in full, whether whole numbers keep a
decimal, how an exponent is written, and what stands for the values that are
no finite numbers.

Key definitions: `Decimal.Layout`, `Decimal.Layout.write`.
-/
import Curtail.Decimal.Binary
import Curtail.Decimal.Shortest

namespace Curtail
namespace Decimal

/-- A format for numbers. -/
structure Layout where
  /-- Which of two equally near decimals is written. -/
  tie : Tie
  /-- The least and the greatest exponent of the leading digit written without an exponent. -/
  positional : Option (Int × Int)
  /-- Whether a whole number is written with `.0`. -/
  keepsPoint : Bool
  /-- Whether a positive exponent has a sign. -/
  signsExponent : Bool
  /-- What stands for positive infinity, negative infinity and for no number at all. -/
  infinite : Bool → String
  nan : String

/-- Digits with a point after the first `place` of them, zeros filled in on either side. -/
def pointed (digits : List Char) (place : Int) (keepsPoint : Bool) : List Char :=
  if place ≤ 0 then '0' :: '.' :: (List.replicate (-place).toNat '0' ++ digits)
  else
    let whole := digits.take place.toNat ++ List.replicate (place.toNat - digits.length) '0'
    match digits.drop place.toNat with
    | [] => if keepsPoint then whole ++ ['.', '0'] else whole
    | fraction => whole ++ '.' :: fraction

/-- Digits with the exponent `e` of the leading one. -/
def scientific (digits : List Char) (e : Int) (signsExponent : Bool) : List Char :=
  let mantissa :=
    match digits with
    | [] => []
    | [d] => [d]
    | d :: ds => d :: '.' :: ds
  let sign := if e < 0 then ['-'] else if signsExponent then ['+'] else []
  mantissa ++ 'e' :: sign ++ Nat.toDigits 10 e.natAbs

namespace Layout

/-- Whether numbers whose leading digit has the exponent `e` are written without exponent. -/
def isPositional (l : Layout) (e : Int) : Bool :=
  match l.positional with
  | none => true
  | some (least, greatest) => decide (least ≤ e) && decide (e ≤ greatest)

/-- Nonnegative digits in the format. -/
def writeDigits (l : Layout) (d : Digits) : List Char :=
  if d.significand = 0 then if l.keepsPoint then ['0', '.', '0'] else ['0']
  else
    let digits := Nat.toDigits 10 d.significand
    let place := d.exponent + digits.length
    if l.isPositional (place - 1) then pointed digits place l.keepsPoint
    else scientific digits (place - 1) l.signsExponent

/-- A number taken apart, in the format. -/
def writeParts (l : Layout) : Parts → String
  | .nan => l.nan
  | .infinite negative => l.infinite negative
  | .finite negative mantissa exponent edge =>
    (if negative then "-" else "") ++
      String.ofList (l.writeDigits (shortest l.tie mantissa exponent edge))

/-- A number in the format. -/
def write (l : Layout) (x : Float) : String := l.writeParts (parts x)

/-- For people: all digits written out, and no point in whole numbers. -/
def plain : Layout where
  tie := .up
  positional := none
  keepsPoint := false
  signsExponent := false
  infinite negative := if negative then "-inf" else "inf"
  nan := "NaN"

/-- For people who debug: a point in whole numbers, an exponent for very large and small ones. -/
def debug : Layout where
  tie := .up
  positional := some (-4, 15)
  keepsPoint := true
  signsExponent := false
  infinite negative := if negative then "-inf" else "inf"
  nan := "NaN"

/-- For JSON, which has no word for what is no finite number. -/
def json : Layout where
  tie := .even
  positional := some (-5, 15)
  keepsPoint := true
  signsExponent := true
  infinite _ := "null"
  nan := "null"

end Layout

end Decimal
end Curtail
