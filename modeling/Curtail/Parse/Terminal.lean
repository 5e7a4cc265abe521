/-
# Terminals

The leaves of grammars that read the text themselves. A terminal matches once
or not at all, and not matching is no fault. Faults are for text that is the
right token but malformed: an integer that does not fit, a text with a bad
escape.

Key definitions: `Terminal`, `Terminal.name`, `Terminal.read`.
-/
import Curtail.Lexeme.Quoted
import Curtail.Parse.Outcome
import Curtail.Pattern.Search

namespace Curtail

/-- A leaf of a grammar. -/
inductive Terminal where
  /-- An integer in decimal, hexadecimal or octal form. -/
  | integer
  /-- A number with a point or an exponent. -/
  | fraction
  | truth
  /-- A text in double quotes. -/
  | quoted
  | rune (c : Char) (token : String)
  | word (word token : String) (value : Value)
  /-- The word for no value. -/
  | nil (word : String)
  /-- What a group of a pattern reads. -/
  | pattern (token name : String) (p : Pattern) (group : Nat)
  /-- The end of the text. -/
  | finish
  /-- Any single character, blank or not. -/
  | anyChar
  /-- Nothing, anywhere. -/
  | empty

namespace Terminal

/-- What a terminal is called in faults. -/
def name : Terminal → String
  | integer => "integer value"
  | fraction => "float value"
  | truth => "bool value"
  | quoted => "string value"
  | rune c _ => "\"" ++ c.toString ++ "\""
  | word w _ _ => "\"" ++ w ++ "\""
  | nil w => w
  | pattern _ name _ _ => name
  | finish => "end of input"
  | anyChar => "char"
  | empty => "empty"

/-- A single leaf from `start` to the cursor of `next`. -/
def leaf (token : String) (value : Value) (start : Position) (next : Reader) : Outcome :=
  .matched ⟨some (.leaf token value start next.cursor), next⟩

/-- The outcome of a token that was read, or none. -/
def leafOf (token : String) (value : Value) : Option (Position × Reader) → Outcome
  | some (start, next) => leaf token value start next
  | none => ∅

/-- An integer literal; a point after it leaves it to a number with a fraction. -/
def readInteger (r : Reader) : Outcome :=
  match r.lex? Lexeme.scanInteger? with
  | none => ∅
  | some (start, literal, next) =>
    if next.peek? = some '.' then ∅
    else
      match Lexeme.toWord? (Lexeme.integerValue literal) with
      | some n => leaf "INT" (.int n) start next
      | none => .failed (.parse start ("integer value out of range: " ++ String.ofList literal))

/-- A literal with a fraction. -/
def readFraction (r : Reader) : Outcome :=
  match r.lex? Lexeme.scanFraction? with
  | none => ∅
  | some (start, literal, next) => leaf "FLOAT" (.float (Decimal.ofLiteral literal)) start next

/-- `true` or `false`. -/
def readTruth (r : Reader) : Outcome :=
  match r.lex? Lexeme.scanTruth? with
  | none => ∅
  | some (start, literal, next) => leaf "BOOL" (.bool (literal.head? == some 't')) start next

/-- A quoted text; its value is what the backslashes in it mean. -/
def readQuoted (r : Reader) : Outcome :=
  match r.lex? Lexeme.scanQuoted? with
  | none => ∅
  | some (start, literal, next) =>
    match Lexeme.unescape (Lexeme.body literal) with
    | .ok cs => leaf "STRING" (.text (String.ofList cs)) start next
    | .error flaw => .failed (.parse start flaw.message)

/-- What a pattern reads as a token, with its groups. -/
def readPattern? (p : Pattern) (r : Reader) : Option (Position × List (List Char) × Reader) :=
  let t := r.token
  (p.match? t.rest).map fun (length, groups) => (t.cursor, groups, t.skip length)

/-- A group of a pattern. Reading nothing is no match. -/
def readGroup (token : String) (p : Pattern) (group : Nat) (r : Reader) : Outcome :=
  match readPattern? p r with
  | none => ∅
  | some (start, groups, next) =>
    if start.offset < next.cursor.offset then
      leaf token (.text (String.ofList ((groups[group]?).getD []))) start next
    else ∅

/-- What a terminal makes of the text at a reader. -/
def read (t : Terminal) (r : Reader) : Outcome :=
  match t with
  | integer => readInteger r
  | fraction => readFraction r
  | truth => readTruth r
  | quoted => readQuoted r
  | rune c token => leafOf token (.char c) (r.readRune? c)
  | word w token value => leafOf token value (r.readWord? w)
  | nil w => leafOf "NIL" .nil (r.readWord? w)
  | pattern token _ p group => readGroup token p group r
  | finish => if r.atEnd then .matched ⟨none, r⟩ else ∅
  | anyChar =>
    match r.readChar? with
    | none => ∅
    | some (c, next) => leaf "CHAR" (.char c) r.cursor next
  | empty => .matched ⟨none, r⟩

end Terminal

end Curtail
