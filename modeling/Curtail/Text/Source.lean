/-
# Source texts

A source is a text to be read, together with the decision whether blanks
count. When they do not, the blanks at the end of the text are no part of
what can be read.

Key definitions: `Source`, `Source.ofText`, `Source.from`.
-/
import Curtail.Text.Bytes

namespace Curtail

open Text

/-- The part of `text` that a reader sees. -/
def Text.readablePart (text : String) (skipsBlanks : Bool) : List Char :=
  if skipsBlanks then trimEnd text.toList else text.toList

/-- A text to be read; `limit` is the byte length of its readable part. -/
structure Source where
  text : String
  skipsBlanks : Bool
  readable : List Char
  limit : Nat
  readable_eq : readable = readablePart text skipsBlanks
  limit_eq : limit = byteLength readable

namespace Source

/-- The source of a text. -/
def ofText (text : String) (skipsBlanks : Bool) : Source :=
  let readable := readablePart text skipsBlanks
  ⟨text, skipsBlanks, readable, byteLength readable, rfl, rfl⟩

/-- What can be read from a byte offset on. -/
def readableFrom (s : Source) (offset : Nat) : List Char := dropBytes s.readable offset

end Source

end Curtail
