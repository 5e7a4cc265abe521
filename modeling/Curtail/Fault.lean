/-
# Faults

What can go wrong: a required part of the grammar did not match, the input
goes on after the match, an interpreter gave up on a node, or the grammar
itself is flawed. The first three happen at a position.

Of two faults the one further into the input is kept, of two at one offset
the later one; a fault without position gives way to every other. That merge
is associative, so faults can be gathered in any grouping.

Key definitions: `Flaw`, `Fault`, `Fault.furthest`.
Key theorems: `Fault.furthest_assoc`.
-/
import Curtail.Text.Escape
import Curtail.Text.Position

namespace Curtail

/-- What is wrong with a grammar. -/
inductive Flaw where
  | emptyChoice (name : String)
  | emptySequence
  | emptyWord
  | emptyNil
  | crossedBounds (name : String) (most least : Nat)
  | badPattern (pattern : String)
  | largePattern (pattern : String) (limit : Nat)
  | noGroup (pattern : String) (group : Nat)
  | redefined (rule : String)
  | undefined (rule : String)
  | dropped (rule : String)
  /-- A flaw that a grammar author states in own words. -/
  | stated (message : String)
deriving DecidableEq, Repr

/-- A flaw in words. -/
def Flaw.message : Flaw → String
  | emptyChoice name => s!"choice '{name}' needs at least one alternative"
  | emptySequence => "sequence needs at least one parser"
  | emptyWord => "word matcher needs a non-empty word"
  | emptyNil => "nil matcher needs a non-empty word"
  | crossedBounds name most least =>
    s!"repetition of '{name}' has max Some({most}) below min {least}"
  | badPattern pattern => "invalid pattern " ++ Text.quoted pattern
  | largePattern pattern limit =>
    "invalid pattern " ++ Text.quoted pattern ++ s!": Compiled regex exceeds size limit of {limit} bytes."
  | noGroup pattern group => "pattern " ++ Text.quoted pattern ++ s!" has no capturing group {group}"
  | redefined rule => s!"rule '{rule}' is already defined"
  | undefined rule => s!"rule '{rule}' is not defined"
  | dropped rule => s!"rule '{rule}' was dropped"
  | stated message => message

/-- Something that went wrong. -/
inductive Fault where
  /-- A required part of the grammar did not match. -/
  | parse (place : Position) (message : String)
  /-- The grammar matched, but the input goes on. -/
  | trailing (place : Position)
  /-- An interpreter gave up. -/
  | eval (place : Position) (message : String)
  /-- The grammar is flawed. -/
  | grammar (flaw : Flaw)
deriving DecidableEq, Repr

namespace Fault

/-- The fault of finding something else than `name`. -/
def expecting (place : Position) (name : String) : Fault :=
  .parse place ("was expecting " ++ name)

/-- Where the fault happened. -/
def place? : Fault → Option Position
  | parse p _ => some p
  | trailing p => some p
  | eval p _ => some p
  | grammar _ => none

/-- A fault in words. -/
def message : Fault → String
  | parse _ m => m
  | trailing _ => "was expecting the end of input"
  | eval _ m => m
  | grammar flaw => "invalid grammar: " ++ flaw.message

/-- A fault's kind, for programs to read. -/
def code : Fault → String
  | parse _ _ => "parsley::parse"
  | trailing _ => "parsley::trailing_input"
  | eval _ _ => "parsley::eval"
  | grammar _ => "parsley::grammar"

/-- How far into the input a fault happened: nothing without a position, else the offset and one. -/
def depth (f : Fault) : Nat := f.place?.elim 0 (·.offset + 1)

/-- The fault further into the input, of two equally far the second. -/
def furthest : Option Fault → Option Fault → Option Fault
  | none, second => second
  | some first, none => some first
  | some first, some second => if first.depth ≤ second.depth then some second else some first

@[simp] theorem furthest_none_left (f : Option Fault) : furthest none f = f := rfl

@[simp] theorem furthest_none_right (f : Option Fault) : furthest f none = f := by
  cases f <;> rfl

theorem furthest_assoc (a b c : Option Fault) :
    furthest (furthest a b) c = furthest a (furthest b c) := by
  cases a with
  | none => rfl
  | some a =>
    cases b with
    | none => rfl
    | some b =>
      cases c with
      | none => simp
      | some c => grind [furthest]

end Fault

end Curtail
