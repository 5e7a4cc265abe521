/-
# Number literals

An integer literal is a sign and then, in this order of preference, a decimal
number without leading zero, `0x` with hexadecimal digits, or a zero with
octal digits. A literal with a fraction has a point or an exponent. Scanners
yield the length of the literal that a text starts with.

Key definitions: `Lexeme.scanInteger?`, `Lexeme.integerValue`,
`Lexeme.scanFraction?`.
-/
import Curtail.Decimal.Literal

namespace Curtail
namespace Lexeme

/-- The length of the longest part at the start that is in a class. -/
def runLength (p : Char → Bool) (cs : List Char) : Nat := (cs.takeWhile p).length

def isHexDigit (c : Char) : Bool :=
  c.isDigit || ('a'.toNat ≤ c.toNat && c.toNat ≤ 'f'.toNat) ||
    ('A'.toNat ≤ c.toNat && c.toNat ≤ 'F'.toNat)

def isOctalDigit (c : Char) : Bool := '0'.toNat ≤ c.toNat && c.toNat ≤ '7'.toNat

def isSign (c : Char) : Bool := c == '+' || c == '-'

/-- The length of the sign at the start, if there is one. -/
def signLength (cs : List Char) : Nat := if cs.head?.any isSign then 1 else 0

/-- The length of the unsigned integer at the start. -/
def scanUnsigned? : List Char → Option Nat
  | '0' :: x :: cs =>
    let hex := runLength isHexDigit cs
    if (x == 'x' || x == 'X') && 0 < hex then some (2 + hex)
    else some (1 + runLength isOctalDigit (x :: cs))
  | c :: cs => if c.isDigit then some (1 + runLength Char.isDigit cs) else none
  | [] => none

/-- The length of the integer literal at the start. -/
def scanInteger? (cs : List Char) : Option Nat :=
  (scanUnsigned? (cs.drop (signLength cs))).map (signLength cs + ·)

/-- The number that an unsigned integer literal stands for. -/
def unsignedValue : List Char → Nat
  | '0' :: x :: cs =>
    if x == 'x' || x == 'X' then Decimal.natOfDigits 16 cs else Decimal.natOfDigits 8 (x :: cs)
  | cs => Decimal.natOfDigits 10 cs

/-- The number that an integer literal stands for. -/
def integerValue (literal : List Char) : Int :=
  let magnitude := unsignedValue (literal.drop (signLength literal))
  if literal.head? = some '-' then -(magnitude : Int) else magnitude

/-- A number as a word of 64 bits, if it fits. -/
def toWord? (n : Int) : Option Int64 :=
  if -Int.pow 2 63 ≤ n ∧ n < Int.pow 2 63 then some (Int64.ofInt n) else none

/-- The length of the exponent at the start: `e`, a sign, digits. -/
def scanExponent? : List Char → Option Nat
  | e :: cs =>
    let digits := runLength Char.isDigit (cs.drop (signLength cs))
    if (e == 'e' || e == 'E') && 0 < digits then some (1 + signLength cs + digits) else none
  | [] => none

/-- The length of the unsigned number with a point or an exponent at the start. -/
def scanUnsignedFraction? (cs : List Char) : Option Nat :=
  let whole := runLength Char.isDigit cs
  match cs.drop whole with
  | '.' :: rest =>
    let fraction := runLength Char.isDigit rest
    if whole + fraction = 0 then none
    else some (whole + 1 + fraction + (scanExponent? (rest.drop fraction)).getD 0)
  | rest => if whole = 0 then none else (scanExponent? rest).map (whole + ·)

/-- The length of the literal with a fraction at the start. -/
def scanFraction? (cs : List Char) : Option Nat :=
  (scanUnsignedFraction? (cs.drop (signLength cs))).map (signLength cs + ·)

end Lexeme
end Curtail
