/-
# Sets of identities and counts by identity

Parsers that can recurse are told apart by identities, small natural numbers.
An `IdSet` says which of them were cut short; a `Tally` counts something by
identity, such as how often each was entered at the present position. Both
are in ascending order, so two with the same content are equal.

Key definitions: `IdSet`, `Tally`, `Tally.get`, `Tally.inc`.
Key theorems: `Tally.get_inc`.
-/
import Curtail.Ascending

namespace Curtail

/-- A set of identities in ascending order. -/
abbrev IdSet := Ascending fun id : Nat => id

namespace IdSet

/-- The set of the identities in a list. -/
def ofIds (ids : List Nat) : IdSet := Ascending.ofList _ ids

/-- The identities in ascending order. -/
def ids (s : IdSet) : List Nat := s.items

/-- Whether an identity is in the set. -/
def contains (s : IdSet) (id : Nat) : Bool := s.hasKey id

end IdSet

/-- Counts by identity; an identity that is not listed has the count zero. -/
structure Tally where
  counts : Ascending fun entry : Nat × Nat => entry.1

namespace Tally

/-- Every count is zero. -/
def zero : Tally := ⟨∅⟩

instance : Inhabited Tally := ⟨zero⟩

/-- The count of an identity. -/
def get (t : Tally) (id : Nat) : Nat := ((t.counts.find? id).map Prod.snd).getD 0

/-- One more for an identity. -/
def inc (t : Tally) (id : Nat) : Tally := ⟨Ascending.single _ (id, t.get id + 1) ++ t.counts⟩

/-- Whether no identity is counted. -/
def isZero (t : Tally) : Bool := t.counts.isEmpty

instance : BEq Tally := ⟨fun s t => s.counts.items == t.counts.items⟩

@[simp] theorem get_zero (id : Nat) : zero.get id = 0 := rfl

/-- Counting one identity up leaves the others as they are. -/
theorem get_inc (t : Tally) (id other : Nat) :
    (t.inc id).get other = if id = other then t.get id + 1 else t.get other := by
  unfold inc
  simp only [get, Ascending.find?_append, Ascending.find?_single]
  split <;> simp

end Tally

end Curtail
