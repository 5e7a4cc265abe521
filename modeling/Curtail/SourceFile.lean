/-
# Source files and diagnostics

A named text hands out readers and says where in it a fault happened. A
diagnostic is what is told about a fault: a line to start with, the fault's
code and message, a label on the character at its position, and perhaps some
help.

Key definitions: `SourceFile`, `SourceFile.faultLine`, `Diagnostic`,
`Diagnostic.label?`.
-/
import Curtail.Fault
import Curtail.Text.Reader

namespace Curtail

/-- A text with a name. -/
structure SourceFile where
  name : String
  text : String

namespace SourceFile

/-- A reader at the start of the file. -/
def reader (file : SourceFile) (skipsBlanks : Bool) : Reader := Reader.ofText file.text skipsBlanks

/-- A position in the file: its name, if it has one, and line and column. -/
def positionText (file : SourceFile) (p : Position) : String :=
  if file.name.isEmpty then p.text else file.name ++ ":" ++ p.text

/-- A fault in one line. -/
def faultLine (file : SourceFile) (f : Fault) : String :=
  match f.place? with
  | some p => file.positionText p ++ ": " ++ f.message
  | none => file.name ++ ": " ++ f.message

/-- The length of the character at an offset, zero where there is none. -/
def charLength (file : SourceFile) (offset : Nat) : Nat :=
  ((Text.dropBytes file.text.toList offset).head?.map Char.utf8Size).getD 0

end SourceFile

/-- A stretch of a text with a remark. -/
structure Label where
  offset : Nat
  length : Nat
  remark : String
deriving DecidableEq, Repr

/-- A fault in a file, with help if there is any. -/
structure Diagnostic where
  file : SourceFile
  fault : Fault
  help : Option String

namespace Diagnostic

/-- The character at the fault's position, with the fault's message. -/
def label? (d : Diagnostic) : Option Label :=
  d.fault.place?.map fun p => ⟨p.offset, d.file.charLength p.offset, d.fault.message⟩

end Diagnostic

end Curtail
