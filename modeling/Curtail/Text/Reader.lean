/-
# Readers

A reader is a place in a source. Reading never changes a reader, it yields
another one, so every branch of a parse goes on from its own copy. When the
source skips blanks, everything but single characters is read from the next
token on.

A reader may be moved anywhere, also inside a character or past the end;
there is nothing to read at such a place.

Key definitions: `Reader`, `Reader.ofText`, `Reader.skip`, `Reader.token`,
`Reader.readRune?`, `Reader.readWord?`, `Reader.lex?`.
Key theorems: `Reader.rest_skip`, `Reader.offset_skip`.
-/
import Curtail.Text.Position
import Curtail.Text.Source

namespace Curtail

open Text

/-- A place in a source; `rest` is what can be read from it. -/
structure Reader where
  source : Source
  cursor : Position
  rest : List Char
  rest_eq : rest = source.readableFrom cursor.offset

namespace Reader

theorem offset_advanceAll (cs : List Char) (p : Position) :
    (p.advanceAll cs).offset = p.offset + byteLength cs := by
  induction cs generalizing p with
  | nil => rfl
  | cons c cs ih =>
    change ((p.advance c).advanceAll cs).offset = _
    rw [ih, Position.offset_advance, byteLength, Nat.add_assoc]

/-- The same source, read from `p`. -/
def moveTo (r : Reader) (p : Position) : Reader :=
  ⟨r.source, p, r.source.readableFrom p.offset, rfl⟩

/-- The reader after the next `n` characters, or after all that are left. -/
def skip (r : Reader) (n : Nat) : Reader where
  source := r.source
  cursor := r.cursor.advanceAll (r.rest.take n)
  rest := r.rest.drop n
  rest_eq := by
    rw [offset_advanceAll]
    refine (dropBytes_add ?_).symm
    rw [List.take_append_drop]
    exact r.rest_eq.symm

@[simp] theorem source_skip (r : Reader) (n : Nat) : (r.skip n).source = r.source := rfl

@[simp] theorem rest_skip (r : Reader) (n : Nat) : (r.skip n).rest = r.rest.drop n := rfl

theorem offset_skip (r : Reader) (n : Nat) :
    (r.skip n).cursor.offset = r.cursor.offset + byteLength (r.rest.take n) :=
  offset_advanceAll _ _

/-- The reader after the blanks at its cursor. -/
def skipBlanks (r : Reader) : Reader := r.skip (r.rest.takeWhile isBlank).length

/-- The reader at the next token: after blanks if the source skips them. -/
def token (r : Reader) : Reader := if r.source.skipsBlanks then r.skipBlanks else r

/-- The start of a text, or its first token if blanks are skipped. -/
def ofText (text : String) (skipsBlanks : Bool) : Reader :=
  let source := Source.ofText text skipsBlanks
  token ⟨source, .start, source.readable, (dropBytes_zero _).symm⟩

/-- The number of bytes left. -/
def remaining (r : Reader) : Nat := r.source.limit - r.cursor.offset

/-- Whether no byte is left. -/
def atEnd (r : Reader) : Bool := r.remaining == 0

/-- The next character. -/
def peek? (r : Reader) : Option Char := r.rest.head?

/-- Reads one character, blank or not. -/
def readChar? (r : Reader) : Option (Char × Reader) := r.peek?.map fun c => (c, r.skip 1)

/-- Reads the character `c` as a token; yields where it starts. -/
def readRune? (r : Reader) (c : Char) : Option (Position × Reader) :=
  let t := r.token
  if t.peek? = some c then some (t.cursor, t.skip 1) else none

/-- Whether a word may end between its last character and the characters `rest`: not inside an
identifier. -/
def wordEnds (word rest : List Char) : Bool :=
  !(word.getLast?.any isIdentifier && rest.head?.any isIdentifier)

/-- Reads a word as a token; yields where it starts. The empty word is never read. -/
def readWord? (r : Reader) (word : String) : Option (Position × Reader) :=
  let t := r.token
  let w := word.toList
  if !w.isEmpty && w.isPrefixOf t.rest && wordEnds w (t.rest.drop w.length) then
    some (t.cursor, t.skip w.length)
  else none

/-- Reads a token whose length `scan` measures in characters; yields where it starts and what
was read. -/
def lex? (r : Reader) (scan : List Char → Option Nat) : Option (Position × List Char × Reader) :=
  let t := r.token
  (scan t.rest).map fun n => (t.cursor, t.rest.take n, t.skip n)

/-- The cursor and what remains, for a person to read. -/
def text (r : Reader) : String := "Reader\x7b" ++ s!"{r.cursor.text}, remaining: {r.remaining}" ++ "\x7d"

/-- The reader with its fields named. -/
def debugText (r : Reader) : String :=
  "Reader \x7b cursor: " ++ r.cursor.debugText ++ s!", remaining: {r.remaining}" ++ " \x7d"

end Reader

end Curtail
