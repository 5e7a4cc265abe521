/-
# Sets of characters in a pattern

The part of a pattern that reads one character: ranges, the classes of
digits, blanks and word characters, and what is built from them. A set is kept
as ranges of code points, so two ways to write one set give equal sets.

Key definitions: `CharSet`, `CharSet.has`.
-/
import Curtail.Text.Class
import Curtail.Text.Fold

namespace Curtail

/-- A set of characters. -/
structure CharSet where
  ranges : Text.Ranges
deriving DecidableEq, Repr, Inhabited

namespace CharSet

/-- Whether a character is in the set. -/
def has (s : CharSet) (c : Char) : Bool := s.ranges.has c.toNat

def none : CharSet := ⟨[]⟩

def range (lo hi : Char) : CharSet := ⟨[(lo.toNat, hi.toNat)]⟩

/-- The set of one character. -/
def single (c : Char) : CharSet := range c c

def digit : CharSet := ⟨Text.digitRanges⟩

def blank : CharSet := ⟨Text.whiteSpace⟩

def word : CharSet := ⟨Text.wordRanges⟩

def complement (s : CharSet) : CharSet := ⟨s.ranges.complement⟩

def union (s t : CharSet) : CharSet := ⟨s.ranges.union t.ranges⟩

def inter (s t : CharSet) : CharSet := ⟨s.ranges.inter t.ranges⟩

/-- The characters that differ from one in `s` in case only, and those in `s`. -/
def anyCase (s : CharSet) : CharSet := ⟨s.ranges.anyCase⟩

/-- Every character. -/
def all : CharSet := complement none

/-- Every character but a line break. -/
def inLine : CharSet := complement (single '\n')

/-- The characters of `s` that are not in `t`. -/
def minus (s t : CharSet) : CharSet := ⟨s.ranges.minus t.ranges⟩

/-- The characters in exactly one of the sets. -/
def either (s t : CharSet) : CharSet := minus (union s t) (inter s t)

/-- Whether the set has exactly one character. -/
def isSingle (s : CharSet) : Bool :=
  match s.ranges with
  | [(lo, hi)] => lo == hi
  | _ => false

end CharSet

end Curtail
