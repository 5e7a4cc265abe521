/-
# Quoted texts and words

A text in double quotes may hold anything but a bare quote; a backslash takes
the character after it along, unless that is a line break. What the
backslashes mean is decided afterwards: a letter stands for a control
character, `\u` and four hexadecimal digits for a code point, and two of
those for a code point beyond the first plane.

Key definitions: `Lexeme.scanQuoted?`, `Lexeme.EscapeFlaw`, `Lexeme.unescape`,
`Lexeme.scanTruth?`.
-/
import Curtail.Lexeme.Number
import Curtail.Text.Bytes

namespace Curtail
namespace Lexeme

/-! ### Truth values -/

/-- The length of `true` or `false` at the start, if the word ends there. -/
def scanTruth? (cs : List Char) : Option Nat :=
  let bare (word : List Char) : Bool := word.isPrefixOf cs && !(cs.drop word.length).head?.any Text.isWord
  if bare ['t', 'r', 'u', 'e'] then some 4
  else if bare ['f', 'a', 'l', 's', 'e'] then some 5
  else none

/-! ### Quoted texts -/

/-- The length of the body of a quoted text and its closing quote. -/
def scanBody? : List Char → Option Nat
  | [] => none
  | '"' :: _ => some 1
  | ['\\'] => none
  | '\\' :: c :: cs => if c = '\n' then none else (scanBody? cs).map (· + 2)
  | _ :: cs => (scanBody? cs).map (· + 1)

/-- The length of the quoted text at the start, with its quotes. -/
def scanQuoted? : List Char → Option Nat
  | '"' :: cs => (scanBody? cs).map (· + 1)
  | _ => none

/-- What can be wrong with the backslashes in a quoted text. -/
inductive EscapeFlaw where
  | unpaired
  | badCodePoint (n : Nat)
  | unknown (c : Char)
  | unterminated
  | truncated
  | badDigits (digits : List Char)
deriving DecidableEq, Repr

/-- A flaw in words. -/
def EscapeFlaw.message : EscapeFlaw → String
  | unpaired => "unpaired surrogate in string"
  | badCodePoint n =>
    "invalid code point U+" ++ String.ofList ((Nat.toDigits 16 n).map Char.toUpper)
  | unknown c => "invalid escape sequence \\" ++ c.toString
  | unterminated => "unterminated escape sequence"
  | truncated => "truncated \\u escape"
  | badDigits digits => "invalid \\u escape " ++ String.ofList digits

/-- The number in the four bytes after `\u`. A plus sign may stand in front. -/
def fourDigits (cs : List Char) : Except EscapeFlaw Nat :=
  if Text.byteLength cs = 4 then
    let digits := if cs.head? = some '+' then cs.drop 1 else cs
    if digits.all isHexDigit then .ok (Decimal.natOfDigits 16 digits) else .error (.badDigits cs)
  else .error .truncated

/-- The character that a backslash and a letter stand for. -/
def controlOf? : Char → Option Char
  | '"' => some '"'
  | '\\' => some '\\'
  | '/' => some '/'
  | 'b' => some '\x08'
  | 'f' => some '\x0c'
  | 'n' => some '\n'
  | 'r' => some '\r'
  | 't' => some '\t'
  | _ => none

/-- A code point as a character, unless it is a surrogate. -/
def characterOf (n : Nat) : Except EscapeFlaw Char :=
  if h : n.isValidChar then .ok (Char.ofNatAux n h) else .error (.badCodePoint n)

def isHighSurrogate (n : Nat) : Bool := decide (0xD800 ≤ n) && decide (n < 0xDC00)

def isLowSurrogate (n : Nat) : Bool := decide (0xDC00 ≤ n) && decide (n < 0xE000)

/-- The code point of two surrogates. -/
def joinSurrogates (high low : Nat) : Nat := 0x10000 + (high - 0xD800) * 0x400 + (low - 0xDC00)

/-- A character in front of a text that may be flawed. -/
def prepend (c : Except EscapeFlaw Char) (rest : Except EscapeFlaw (List Char)) :
    Except EscapeFlaw (List Char) :=
  match c with
  | .error f => .error f
  | .ok c =>
    match rest with
    | .error f => .error f
    | .ok cs => .ok (c :: cs)

/-- The flaw of a `\u` with fewer than four characters after it. -/
def shortFlaw (cs : List Char) : EscapeFlaw :=
  match fourDigits cs with
  | .error f => f
  | .ok _ => .truncated

/-- The code point of a high surrogate and the digits of the low one after it. -/
def pairValue (high : Nat) (digits : List Char) : Except EscapeFlaw Char :=
  match fourDigits digits with
  | .error f => .error f
  | .ok low => if isLowSurrogate low then characterOf (joinSurrogates high low) else .error .unpaired

/-- The text that the body of a quoted text stands for. -/
def unescape : List Char → Except EscapeFlaw (List Char)
  | [] => .ok []
  | ['\\'] => .error .unterminated
  | '\\' :: 'u' :: a :: b :: c :: d :: rest =>
    match fourDigits [a, b, c, d] with
    | .error f => .error f
    | .ok high =>
      if isHighSurrogate high then
        match rest with
        | '\\' :: 'u' :: e :: f :: g :: h :: rest => prepend (pairValue high [e, f, g, h]) (unescape rest)
        | '\\' :: 'u' :: short => .error (shortFlaw short)
        | _ => .error .unpaired
      else prepend (characterOf high) (unescape rest)
  | '\\' :: 'u' :: short => .error (shortFlaw short)
  | '\\' :: e :: rest =>
    match controlOf? e with
    | some c => prepend (.ok c) (unescape rest)
    | none => .error (.unknown e)
  | c :: rest => prepend (.ok c) (unescape rest)

/-- A quoted text without its quotes. -/
def body (literal : List Char) : List Char := (literal.drop 1).dropLast

end Lexeme
end Curtail
