/-
# Reading character sets

What stands between brackets in a pattern: characters, ranges, classes,
nested brackets, and the operations `&&`, `--` and `~~` between them; also the
escapes that patterns share inside and outside of brackets.

Key definitions: `Pattern.readEscape?`, `Pattern.readBracket?`.
-/
import Curtail.Lexeme.Number
import Curtail.Pattern.CharSet

namespace Curtail
namespace Pattern

/-! ### Escapes -/

/-- A code point given by hexadecimal digits, if there are any and they name a character. -/
def hexChar? (digits : List Char) : Option Char :=
  let n := Decimal.natOfDigits 16 digits
  if !digits.isEmpty && digits.all Lexeme.isHexDigit && decide n.isValidChar then some (Char.ofNat n)
  else none

/-- A code point in braces or as exactly `width` digits, and the rest. -/
def readHex? (width : Nat) : List Char → Option (Char × List Char)
  | '\x7b' :: cs =>
    match cs.dropWhile (· != '\x7d') with
    | [] => none
    | _ :: rest => (hexChar? (cs.takeWhile (· != '\x7d'))).map (·, rest)
  | cs => if cs.length < width then none else (hexChar? (cs.take width)).map (·, cs.drop width)

/-- What a backslash and a character stand for, where that is a character. -/
def escapedChar? (c : Char) : Option Char :=
  if c == 'a' then some '\x07'
  else if c == 'f' then some '\x0c'
  else if c == 't' then some '\t'
  else if c == 'n' then some '\n'
  else if c == 'r' then some '\r'
  else if c == 'v' then some '\x0b'
  else if c.toNat < 0x80 && !c.isAlphanum && c != '<' && c != '>' then some c
  else none

/-- What a backslash and a character stand for, where that is a class. -/
def escapedClass? : Char → Option CharSet
  | 'd' => some .digit
  | 'D' => some (.complement .digit)
  | 's' => some .blank
  | 'S' => some (.complement .blank)
  | 'w' => some .word
  | 'W' => some (.complement .word)
  | _ => none

/-- A character or a class. -/
inductive Item where
  | char (c : Char)
  | set (s : CharSet)

/-- The set of an item. -/
def Item.toSet : Item → CharSet
  | char c => .single c
  | set s => s

/-- A character or class after a backslash, and the rest. -/
def readEscape? : List Char → Option (Item × List Char)
  | [] => none
  | c :: cs =>
    if c == 'x' then (readHex? 2 cs).map fun (c, cs) => (.char c, cs)
    else if c == 'u' then (readHex? 4 cs).map fun (c, cs) => (.char c, cs)
    else if c == 'U' then (readHex? 8 cs).map fun (c, cs) => (.char c, cs)
    else
      match escapedClass? c with
      | some s => some (.set s, cs)
      | none => (escapedChar? c).map fun c => (.char c, cs)

/-! ### Brackets -/

/-- A character or an escape between brackets. -/
def readItem? : List Char → Option (Item × List Char)
  | [] => none
  | '\\' :: cs => readEscape? cs
  | c :: cs => some (.char c, cs)

/-- An item, or a range of characters if a hyphen and another character follow. -/
def readRange? (cs : List Char) : Option (CharSet × List Char) :=
  match readItem? cs with
  | none => none
  | some (lo, '-' :: cs) =>
    if cs.isEmpty then none
    else if cs.head? = some ']' || cs.head? = some '-' then some (lo.toSet, '-' :: cs)
    else
      match lo, readItem? cs with
      | .char lo, some (.char hi, cs) => if lo ≤ hi then some (.range lo hi, cs) else none
      | _, _ => none
  | some (item, cs) => some (item.toSet, cs)

/-- The set of a list of ranges. -/
def ofRanges (ranges : List (Char × Char)) : CharSet :=
  ranges.foldr (fun (lo, hi) s => .union (.range lo hi) s) .none

/-- The named classes, which hold characters of ASCII only. -/
def namedClass? : String → Option CharSet
  | "alnum" => some (ofRanges [('0', '9'), ('A', 'Z'), ('a', 'z')])
  | "alpha" => some (ofRanges [('A', 'Z'), ('a', 'z')])
  | "ascii" => some (ofRanges [('\x00', '\x7f')])
  | "blank" => some (ofRanges [('\t', '\t'), (' ', ' ')])
  | "cntrl" => some (ofRanges [('\x00', '\x1f'), ('\x7f', '\x7f')])
  | "digit" => some (ofRanges [('0', '9')])
  | "graph" => some (ofRanges [('!', '~')])
  | "lower" => some (ofRanges [('a', 'z')])
  | "print" => some (ofRanges [(' ', '~')])
  | "punct" => some (ofRanges [('!', '/'), (':', '@'), ('[', '\x60'), ('\x7b', '~')])
  | "space" => some (ofRanges [('\t', '\r'), (' ', ' ')])
  | "upper" => some (ofRanges [('A', 'Z')])
  | "word" => some (ofRanges [('0', '9'), ('A', 'Z'), ('_', '_'), ('a', 'z')])
  | "xdigit" => some (ofRanges [('0', '9'), ('A', 'F'), ('a', 'f')])
  | _ => none

/-- A named class such as `:alpha:]`, after its bracket. -/
def readNamed? : List Char → Option (CharSet × List Char)
  | ':' :: cs =>
    let negated := cs.head? == some '^'
    let cs := if negated then cs.drop 1 else cs
    match cs.dropWhile (· != ':') with
    | ':' :: ']' :: rest =>
      (namedClass? (String.ofList (cs.takeWhile (· != ':')))).map fun s =>
        (if negated then .complement s else s, rest)
    | _ => none
  | _ => none

/-- The operation between two sets. -/
inductive SetOp where
  | inter
  | minus
  | either

def SetOp.apply : SetOp → CharSet → CharSet → CharSet
  | inter, s, t => .inter s t
  | minus, s, t => .minus s t
  | either, s, t => .either s t

/-- A set with the variants of its characters, if case is ignored. -/
def foldIf (anyCase : Bool) (s : CharSet) : CharSet := if anyCase then .anyCase s else s

/-- What was read of a bracket so far: the left side of an operation and the present side, each with
how deep it is nested, and the number of items on the present side. -/
structure Sides where
  left : Option (SetOp × CharSet)
  leftDepth : Nat
  present : CharSet
  items : Nat
  deepest : Nat

/-- How deep the present side is nested: several items are one level. -/
def Sides.presentDepth (s : Sides) : Nat := if s.items < 2 then s.deepest else s.deepest + 1

/-- All sides joined. -/
def Sides.join (anyCase : Bool) (s : Sides) : CharSet :=
  match s.left with
  | none => foldIf anyCase s.present
  | some (op, left) => op.apply left (foldIf anyCase s.present)

/-- How deep all sides are nested: an operation is one level. -/
def Sides.depth (s : Sides) : Nat :=
  if s.left.isSome then max s.leftDepth s.presentDepth + 1 else s.presentDepth

/-- An operation after what was read so far. -/
def Sides.operate (anyCase : Bool) (op : SetOp) (s : Sides) : Sides :=
  ⟨some (op, s.join anyCase), s.depth, .none, 0, 0⟩

/-- One more set on the present side. -/
def Sides.add (s : Sides) (t : CharSet) (depth : Nat) : Sides :=
  { s with present := .union s.present t, items := s.items + 1, deepest := max s.deepest depth }

/-- The characters after an opening bracket that have no special meaning there, hyphens or one
closing bracket, and the rest. -/
def readOpening (cs : List Char) : Sides × List Char :=
  match cs with
  | '-' :: _ => (⟨none, 0, .single '-', (cs.takeWhile (· == '-')).length, 0⟩, cs.dropWhile (· == '-'))
  | ']' :: cs => (⟨none, 0, .single ']', 1, 0⟩, cs)
  | cs => (⟨none, 0, .none, 0, 0⟩, cs)

mutual

/-- A set in brackets, after its opening bracket, and how deep it is nested. -/
def readBracket? (anyCase : Bool) : Nat → List Char → Option (CharSet × Nat × List Char)
  | 0, _ => none
  | fuel + 1, cs =>
    let negated := cs.head? == some '^'
    let (opening, cs) := readOpening (if negated then cs.drop 1 else cs)
    match readSides? anyCase fuel opening cs with
    | none => none
    | some (s, depth, cs) => some (if negated then .complement s else s, depth + 1, cs)

def readSides? (anyCase : Bool) : Nat → Sides → List Char → Option (CharSet × Nat × List Char)
  | 0, _, _ => none
  | fuel + 1, sides, cs =>
    match cs with
    | [] => none
    | ']' :: cs => some (sides.join anyCase, sides.depth, cs)
    | '&' :: '&' :: cs => readSides? anyCase fuel (sides.operate anyCase .inter) cs
    | '-' :: '-' :: cs => readSides? anyCase fuel (sides.operate anyCase .minus) cs
    | '~' :: '~' :: cs => readSides? anyCase fuel (sides.operate anyCase .either) cs
    | '[' :: cs =>
      match readNamed? cs with
      | some (s, cs) => readSides? anyCase fuel (sides.add s 0) cs
      | none =>
        match readBracket? anyCase fuel cs with
        | none => none
        | some (s, depth, cs) => readSides? anyCase fuel (sides.add s depth) cs
    | cs =>
      match readRange? cs with
      | none => none
      | some (s, cs) => readSides? anyCase fuel (sides.add s 0) cs

end

end Pattern
end Curtail
