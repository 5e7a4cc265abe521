/-
# Outcomes

What one parser call produced: its matches, the furthest fault seen on the
way, and the identities of the parsers that refused to recurse anywhere below.
No match and no fault is no failure, the parser just does not apply here.

Outcomes are joined with `++`: the matches of the first win, the fault further
into the input is kept, the identities are united. Joining is associative and
the empty outcome is neutral, so a search may join what it finds in any
grouping.

Key definitions: `Outcome`, `Outcome.append`.
Key theorems: `Outcome.append_assoc`.
-/
import Curtail.Parse.Match
import Curtail.Parse.Tally

namespace Curtail

/-- What one parser call produced. -/
structure Outcome where
  results : Matches
  fault : Option Fault
  curtailed : IdSet

namespace Outcome

/-- No match, no fault, nothing cut short. -/
def empty : Outcome := ⟨∅, none, ∅⟩

instance : EmptyCollection Outcome := ⟨empty⟩

instance : Inhabited Outcome := ⟨empty⟩

/-- A single match. -/
def matched (m : Match) : Outcome := ⟨Ascending.single _ m, none, ∅⟩

/-- A failure. -/
def failed (f : Fault) : Outcome := ⟨∅, some f, ∅⟩

/-- The refusal of a parser to recurse. -/
def refused (id : Nat) : Outcome := ⟨∅, none, Ascending.single _ id⟩

/-- What a call reports besides its matches. -/
def reports (fault : Option Fault) (curtailed : IdSet) : Outcome := ⟨∅, fault, curtailed⟩

def isMatch (o : Outcome) : Bool := !o.results.isEmpty

theorem isMatch_eq_false_iff {o : Outcome} : o.isMatch = false ↔ o.results.items = [] := by
  simp [isMatch, Ascending.isEmpty]

theorem items_eq_nil {o : Outcome} (h : o.isMatch = false) : o.results.items = [] :=
  isMatch_eq_false_iff.mp h

theorem items_ne_nil {o : Outcome} (h : o.isMatch = true) : o.results.items ≠ [] := fun hnil => by
  rw [isMatch_eq_false_iff.mpr hnil] at h
  cases h

/-- What two calls produced, one after the other. -/
def append (a b : Outcome) : Outcome :=
  ⟨a.results ++ b.results, Fault.furthest a.fault b.fault, a.curtailed ++ b.curtailed⟩

instance : Append Outcome := ⟨append⟩

theorem append_def (a b : Outcome) : a ++ b =
    ⟨a.results ++ b.results, Fault.furthest a.fault b.fault, a.curtailed ++ b.curtailed⟩ := rfl

@[simp] theorem empty_append (o : Outcome) : ∅ ++ o = o := rfl

@[simp] theorem append_empty (o : Outcome) : o ++ ∅ = o := by
  change Outcome.mk (o.results ++ ∅) (Fault.furthest o.fault none) (o.curtailed ++ ∅) = o
  simp

theorem append_assoc (a b c : Outcome) : a ++ b ++ c = a ++ (b ++ c) := by
  simp only [append_def, Ascending.append_assoc, Fault.furthest_assoc]

end Outcome

end Curtail
