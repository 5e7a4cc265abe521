/-
# Positions in a text

A position is a byte offset with the line and the column a person would
count. Positions are ordered by offset alone: line and column only say where
to look.

Key definitions: `Position`, `Position.advance`.
Key theorems: `Position.offset_advance`.
-/

namespace Curtail

/-- A place in a text. Offsets count bytes of UTF-8 from 0, lines and columns count from 1. -/
structure Position where
  offset : Nat
  line : Nat
  column : Nat
deriving DecidableEq, Repr

namespace Position

/-- The start of every text. -/
def start : Position := ⟨0, 1, 1⟩

instance : Inhabited Position := ⟨start⟩

/-- The position after reading `c`: a line break starts the next line. -/
def advance (p : Position) (c : Char) : Position :=
  if c = '\n' then ⟨p.offset + c.utf8Size, p.line + 1, 1⟩
  else ⟨p.offset + c.utf8Size, p.line, p.column + 1⟩

/-- The position after reading `cs`. -/
def advanceAll (p : Position) (cs : List Char) : Position := cs.foldl advance p

@[simp] theorem offset_advance (p : Position) (c : Char) :
    (p.advance c).offset = p.offset + c.utf8Size := by
  unfold advance; split <;> rfl

/-- Which of two positions comes first in the text. -/
def order (p q : Position) : Ordering := compare p.offset q.offset

/-- The later of two positions; of two at one offset, the second. -/
def later (p q : Position) : Position := if p.offset ≤ q.offset then q else p

/-- `line:column`. -/
def text (p : Position) : String := s!"{p.line}:{p.column}"

instance : ToString Position := ⟨text⟩

/-- The position with its fields named. -/
def debugText (p : Position) : String :=
  "Position \x7b " ++ s!"offset: {p.offset}, line: {p.line}, column: {p.column}" ++ " \x7d"

/-- The position as a JSON object. -/
def jsonText (p : Position) : String :=
  "\x7b" ++ s!"\"offset\":{p.offset},\"line\":{p.line},\"column\":{p.column}" ++ "\x7d"

end Position

end Curtail
