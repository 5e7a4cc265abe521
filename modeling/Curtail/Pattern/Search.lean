/-
# Searching for a match

An automaton is run on a text in many threads at once, one character after the
other. The threads are ordered; the first one that accepts is the match, unless
a thread before it accepts later. No two threads are in one state at one place:
the second to arrive is given up, for it can do nothing that the first cannot.
So the time is bounded by the length of the text and the number of states.

A match is searched for only at the start of the text, and nothing before the
start is seen.

Key definitions: `Pattern.Thread`, `Pattern.Front.follow`,
`Pattern.Automaton.run`, `Pattern.match?`.
Key theorems: `Pattern.length_le_of_match?`.
-/
import Curtail.Pattern.Automaton

namespace Curtail
namespace Pattern

/-- Places by slot, the newest first. -/
abbrev Records := List (Nat × Nat)

/-- One way through an automaton, as far as it has come. -/
structure Thread where
  state : Nat
  records : Records

/-- A place in the text, with the characters on both sides of it. -/
structure Place where
  index : Nat
  before : Option Char
  after : Option Char

/-- All threads at one place. -/
structure Front where
  /-- For every state one more than the last place where a thread was in it. -/
  entered : Array Nat
  /-- The threads that wait for a character of a set, the last one first. -/
  waiting : List (CharSet × Thread)
  /-- What the first thread that accepts here has recorded. -/
  accepted : Option Records

namespace Front

/-- Follows threads up to where they wait for a character; those after one that accepts are given
up. Every round enters a state or gives up a thread, so `fuel` above the number of threads and
twice the number of states never runs out. -/
def follow (states : Array State) (place : Place) : Nat → List Thread → Front → Front
  | 0, _, front => front
  | _, [], front => front
  | fuel + 1, t :: ts, front =>
    if front.entered[t.state]? == some (place.index + 1) then follow states place fuel ts front
    else
      let front := { front with entered := front.entered.setIfInBounds t.state (place.index + 1) }
      match states[t.state]? with
      | none => follow states place fuel ts front
      | some (.read s next) =>
        follow states place fuel ts { front with waiting := (s, { t with state := next }) :: front.waiting }
      | some (.check a next) =>
        follow states place fuel
          (if a.holds place.before place.after then { t with state := next } :: ts else ts) front
      | some (.record slot next) =>
        follow states place fuel (⟨next, (slot, place.index) :: t.records⟩ :: ts) front
      | some (.fork first second) =>
        follow states place fuel ({ t with state := first } :: { t with state := second } :: ts) front
      | some .accept => { front with accepted := some t.records }

/-- The threads that go on after a character, in their order. -/
def advance (front : Front) (c : Char) : List Thread :=
  front.waiting.foldl (fun ts (s, t) => if s.has c then t :: ts else ts) []

end Front

/-- All threads at a place, from those that reach it, in their order. -/
def Automaton.front (a : Automaton) (place : Place) (threads : List Thread) (entered : Array Nat) : Front :=
  Front.follow a.states place (threads.length + 2 * a.states.size + 1) threads ⟨entered, [], none⟩

/-- Runs threads on a text: the end of the match and what was recorded on the way, if there is one.
`found` is the match so far. -/
def Automaton.run (a : Automaton) (before : Option Char) (index : Nat) (threads : List Thread)
    (entered : Array Nat) (found : Option (Nat × Records)) : List Char → Option (Nat × Records)
  | [] =>
    let front := a.front ⟨index, before, none⟩ threads entered
    (front.accepted.map (index, ·)).or found
  | c :: text =>
    let front := a.front ⟨index, before, some c⟩ threads entered
    let found := (front.accepted.map (index, ·)).or found
    match front.advance c with
    | [] => found
    | threads => a.run (some c) (index + 1) threads front.entered found text

/-- A match ends in the text. -/
theorem Automaton.le_of_run (a : Automaton) {n : Nat} {records : Records} (text : List Char) :
    ∀ {before : Option Char} {index : Nat} {threads : List Thread} {entered : Array Nat}
      {found : Option (Nat × Records)}, (∀ m r, found = some (m, r) → m ≤ index) →
      a.run before index threads entered found text = some (n, records) → n ≤ index + text.length := by
  have accepted {o : Option Records} {found : Option (Nat × Records)} {index m : Nat} {r : Records}
      (hfound : ∀ m r, found = some (m, r) → m ≤ index)
      (h : (o.map (index, ·)).or found = some (m, r)) : m ≤ index := by
    cases o with
    | none => exact hfound m r (by simpa using h)
    | some s => simp only [Option.map_some, Option.some_or, Option.some.injEq, Prod.mk.injEq] at h; omega
  induction text with
  | nil =>
    intro before index threads entered found hfound h
    exact accepted hfound h
  | cons c text ih =>
    intro before index threads entered found hfound h
    unfold Automaton.run at h
    simp only at h
    split at h
    · have := accepted hfound h
      omega
    · have := ih (fun m r hm => Nat.le_succ_of_le (accepted hfound hm)) h
      simp only [List.length_cons]
      omega

end Pattern

/-- A pattern that can be matched, and the number of its groups; groups are numbered from 1. -/
structure Pattern where
  automaton : Pattern.Automaton
  groups : Nat
deriving DecidableEq, Repr, Inhabited

namespace Pattern

/-- The pattern of a tree. -/
def ofTree (p : Tree) : Pattern := ⟨p.automaton, p.groups⟩

/-- What a group read; nothing if it took no part. -/
def groupText (text : List Char) (records : Records) (group : Nat) : List Char :=
  match records.lookup (startSlot group), records.lookup (stopSlot group) with
  | some start, some stop => (text.take stop).drop start
  | _, _ => []

/-- The match at the start of a text: its length in characters, and what its groups read. Group 0
is the whole match. -/
def match? (p : Pattern) (text : List Char) : Option (Nat × List (List Char)) :=
  let entered := Array.replicate p.automaton.states.size 0
  (p.automaton.run none 0 [⟨p.automaton.start, []⟩] entered none text).map fun (length, records) =>
    (length, text.take length :: (List.range p.groups).map fun i => groupText text records (i + 1))

/-- A match is no longer than the text. -/
theorem length_le_of_match? {p : Pattern} {text : List Char} {n : Nat} {groups : List (List Char)}
    (h : p.match? text = some (n, groups)) : n ≤ text.length := by
  obtain ⟨⟨length, records⟩, hrun, hpair⟩ := Option.map_eq_some_iff.mp h
  simp only [Prod.mk.injEq] at hpair
  have := p.automaton.le_of_run text (fun _ _ hm => by simp at hm) hrun
  omega

end Pattern

end Curtail
