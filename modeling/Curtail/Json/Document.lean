/-
# JSON documents as they are written

A strict reading of JSON that keeps what was written: the members of an object
in order with repeated keys, numbers as literals. Settings are read from such
documents. A text whose escapes name half a character is kept without its
content; that is a flaw only where the content is needed.

Key definitions: `Json.Document`, `Json.Document.ofText?`.
-/
import Curtail.Lexeme.Quoted

namespace Curtail
namespace Json

/-- A JSON value as written. -/
inductive Document where
  | null
  | bool (b : Bool)
  | number (literal : List Char)
  | text (content : Option String)
  | array (items : List Document)
  | object (members : List (Option String × Document))
deriving Inhabited

namespace Document

def isBlank (c : Char) : Bool := c == ' ' || c == '\t' || c == '\n' || c == '\r'

def skipBlanks (cs : List Char) : List Char := cs.dropWhile isBlank

/-- The rest after a word. -/
def afterWord? (word : List Char) (cs : List Char) : Option (List Char) :=
  if word.isPrefixOf cs then some (cs.drop word.length) else none

/-! ### Numbers -/

/-- The length of a run of digits that must not be empty. -/
def scanDigits? (cs : List Char) : Option Nat :=
  let n := Lexeme.runLength Char.isDigit cs
  if n = 0 then none else some n

/-- The length of the whole part of a number: a zero, or digits without leading zero. -/
def scanWhole? (cs : List Char) : Option Nat :=
  if cs.head? = some '0' then if (cs.drop 1).head?.any Char.isDigit then none else some 1
  else scanDigits? cs

/-- The length of a fraction, zero without a point; a point needs digits after it. -/
def scanPart? (cs : List Char) : Option Nat :=
  if cs.head? = some '.' then (scanDigits? (cs.drop 1)).map (1 + ·) else some 0

/-- The length of an exponent, zero without a letter; the letter needs digits after it. -/
def scanPower? (cs : List Char) : Option Nat :=
  if cs.head? = some 'e' || cs.head? = some 'E' then
    let sign := Lexeme.signLength (cs.drop 1)
    (scanDigits? (cs.drop (1 + sign))).map (1 + sign + ·)
  else some 0

/-- The length of the number at the start. -/
def scanNumber? (cs : List Char) : Option Nat := do
  let sign := if cs.head? = some '-' then 1 else 0
  let whole ← scanWhole? (cs.drop sign)
  let part ← scanPart? (cs.drop (sign + whole))
  let power ← scanPower? (cs.drop (sign + whole + part))
  return sign + whole + part + power

/-! ### Texts -/

/-- The length of the body of a text and its closing quote. Control characters must be escaped, and
every escape must be well formed. -/
def scanText? : List Char → Option Nat
  | [] => none
  | '"' :: _ => some 1
  | '\\' :: 'u' :: a :: b :: c :: d :: cs =>
    if [a, b, c, d].all Lexeme.isHexDigit then (scanText? cs).map (· + 6) else none
  | '\\' :: c :: cs => if (Lexeme.controlOf? c).isSome then (scanText? cs).map (· + 2) else none
  | c :: cs => if c.toNat < 0x20 || c == '\\' then none else (scanText? cs).map (· + 1)

/-- A text after its opening quote, and the rest. -/
def readText? (cs : List Char) : Option (Option String × List Char) :=
  (scanText? cs).map fun n =>
    ((Lexeme.unescape (cs.take (n - 1))).toOption.map String.ofList, cs.drop n)

/-! ### Values -/

mutual

/-- A value, blanks before it skipped, and the rest. -/
def readValue? : Nat → List Char → Option (Document × List Char)
  | 0, _ => none
  | fuel + 1, cs =>
    match skipBlanks cs with
    | [] => none
    | '"' :: cs => (readText? cs).map fun (content, cs) => (.text content, cs)
    | '[' :: cs =>
      match skipBlanks cs with
      | ']' :: cs => some (.array [], cs)
      | cs => (readItems? fuel cs).map fun (items, cs) => (.array items, cs)
    | '\x7b' :: cs =>
      match skipBlanks cs with
      | '\x7d' :: cs => some (.object [], cs)
      | cs => (readMembers? fuel cs).map fun (members, cs) => (.object members, cs)
    | 'n' :: cs => (afterWord? ['u', 'l', 'l'] cs).map (.null, ·)
    | 't' :: cs => (afterWord? ['r', 'u', 'e'] cs).map (.bool true, ·)
    | 'f' :: cs => (afterWord? ['a', 'l', 's', 'e'] cs).map (.bool false, ·)
    | cs => (scanNumber? cs).map fun n => (.number (cs.take n), cs.drop n)

/-- Values with commas between them up to the closing bracket, at least one. -/
def readItems? : Nat → List Char → Option (List Document × List Char)
  | 0, _ => none
  | fuel + 1, cs =>
    match readValue? fuel cs with
    | none => none
    | some (v, cs) =>
      match skipBlanks cs with
      | ']' :: cs => some ([v], cs)
      | ',' :: cs => (readItems? fuel cs).map fun (vs, cs) => (v :: vs, cs)
      | _ => none

/-- Members with commas between them up to the closing brace, at least one. -/
def readMembers? : Nat → List Char → Option (List (Option String × Document) × List Char)
  | 0, _ => none
  | fuel + 1, cs =>
    match readMember? fuel cs with
    | none => none
    | some (m, cs) =>
      match skipBlanks cs with
      | '\x7d' :: cs => some ([m], cs)
      | ',' :: cs => (readMembers? fuel cs).map fun (ms, cs) => (m :: ms, cs)
      | _ => none

/-- A key, a colon and a value. -/
def readMember? : Nat → List Char → Option ((Option String × Document) × List Char)
  | 0, _ => none
  | fuel + 1, cs =>
    match skipBlanks cs with
    | '"' :: cs =>
      match readText? cs with
      | none => none
      | some (key, cs) =>
        match skipBlanks cs with
        | ':' :: cs => (readValue? fuel cs).map fun (v, cs) => ((key, v), cs)
        | _ => none
    | _ => none

end

/-- The document that a text holds, if it holds just one. -/
def ofText? (text : String) : Option Document :=
  match readValue? (3 * text.length + 3) text.toList with
  | some (d, rest) => if (skipBlanks rest).isEmpty then some d else none
  | none => none

/-- A truth value. -/
def asBool? : Document → Option Bool
  | bool b => some b
  | _ => none

/-- A natural number of 64 bits. -/
def asWord? : Document → Option Nat
  | number literal =>
    let n := Decimal.natOfDigits 10 literal
    if literal.all Char.isDigit && decide (n < Nat.pow 2 64) then some n else none
  | _ => none

/-- The fields of a record, in the given order: of an object the members with these keys, none of
them twice and every key readable; of an array its items in order. A missing field is `none`; more
items than fields are refused. -/
def fields? (names : List String) : Document → Option (List (Option Document))
  | array items =>
    if items.length ≤ names.length then
      some (items.map some ++ List.replicate (names.length - items.length) none)
    else none
  | object members =>
    let named := members.filterMap fun (key, v) => key.map (·, v)
    let present := (named.map Prod.fst).filter names.contains
    if named.length = members.length ∧ present.Nodup then some (names.map (named.lookup ·)) else none
  | _ => none

end Document
end Json
end Curtail
