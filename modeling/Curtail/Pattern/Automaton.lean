/-
# Automata

A pattern is matched by an automaton. Its states are numbered; a state reads a
character, checks the place, records the place for a group, forks, or accepts.
A fork prefers its first way.

The automaton of a tree is built from the end to the start, so that every
state is built when those that may follow it are known. A repetition without bound
is a loop, with a fork that leads into its body or on.

Key definitions: `Pattern.State`, `Pattern.Automaton`,
`Pattern.Tree.automaton`.
-/
import Curtail.Pattern.Tree

namespace Curtail
namespace Pattern

/-- A state of an automaton, with the numbers of the states that may follow. -/
inductive State where
  | read (s : CharSet) (next : Nat)
  | check (a : Anchor) (next : Nat)
  /-- Records the place under the number `slot`. -/
  | record (slot next : Nat)
  | fork (first second : Nat)
  | accept
deriving DecidableEq, Repr, Inhabited

/-- The states of an automaton, and where it starts. -/
structure Automaton where
  states : Array State
  start : Nat
deriving DecidableEq, Repr, Inhabited

/-- The number under which the start of a group is recorded. -/
def startSlot (group : Nat) : Nat := 2 * group

/-- The number under which the end of a group is recorded. -/
def stopSlot (group : Nat) : Nat := 2 * group + 1

/-- Adds states to some that lead to the state `next`; the automaton starts where the new states
do. -/
abbrev Construction := (next : Nat) → Array State → Automaton

/-- The states with one more in front. -/
def push (s : State) (states : Array State) : Automaton :=
  let start := states.size
  ⟨states.push s, start⟩

namespace Construction

/-- A single state. -/
def state (f : Nat → State) : Construction := fun next states => push (f next) states

/-- One construction in front of another. -/
def andThen (first second : Construction) : Construction := fun next states =>
  let rest := second next states
  first rest.start rest.states

/-- A fork between `way` and what else follows. -/
def split (greedy : Bool) (way other : Nat) : State :=
  if greedy then .fork way other else .fork other way

/-- `n` copies in a row. -/
def copies (c : Construction) : Nat → Construction
  | 0 => fun next states => ⟨states, next⟩
  | n + 1 => fun next states =>
    let last := c next states
    copies c n last.start last.states

/-- At most `n` copies; from the front of each there is a way to `exit`. -/
def atMost (c : Construction) (greedy : Bool) (exit : Nat) : Nat → Construction
  | 0 => fun next states => ⟨states, next⟩
  | n + 1 => fun next states =>
    let last := c next states
    let entry := push (split greedy last.start exit) last.states
    atMost c greedy exit n entry.start entry.states

/-- A body and a fork after it that leads back to the body or on, entered at the body: once or more
often. -/
def oneOrMore (c : Construction) (greedy : Bool) : Construction := fun next states =>
  let back := states.size
  let body := c back (states.push .accept)
  ⟨body.states.setIfInBounds back (split greedy body.start next), body.start⟩

/-- Any number of times. The loop is entered at its fork if the body reads something. Else there is
another fork in front: a round that reads nothing must not end at the fork it came from. -/
def anyNumber (c : Construction) (greedy readsSomething : Bool) : Construction := fun next states =>
  let fork := states.size
  let around := oneOrMore c greedy next states
  if readsSomething then ⟨around.states, fork⟩
  else push (split greedy around.start next) around.states

/-- From `least` to `most` times. -/
def times (c : Construction) (least : Nat) (most : Option Nat) (greedy readsSomething : Bool) :
    Construction :=
  match least, most with
  | least, some most => andThen (copies c least) fun next => atMost c greedy next (most - least) next
  | 0, none => anyNumber c greedy readsSomething
  | least + 1, none => andThen (copies c least) (oneOrMore c greedy)

end Construction

/-- The states for a tree. -/
def Tree.construction : Tree → Construction
  | nothing => fun next states => ⟨states, next⟩
  | one s => .state (.read s)
  | anchor a => .state (.check a)
  | group index p =>
    .andThen (.state (.record (startSlot index)))
      (.andThen p.construction (.state (.record (stopSlot index))))
  | both p q => .andThen p.construction q.construction
  | either p q => fun next states =>
    let second := q.construction next states
    let first := p.construction next second.states
    push (.fork first.start second.start) first.states
  | times p least most greedy => .times p.construction least most greedy p.readsSomething

/-- The automaton of a tree. -/
def Tree.automaton (p : Tree) : Automaton := p.construction 0 #[.accept]

end Pattern
end Curtail
