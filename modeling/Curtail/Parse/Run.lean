/-
# What parsers do

A run is what a parser does when it is called: given the recursion depths at
the present position, a reader and the session, it yields an outcome and the
session after the call. A run can be out of fuel, which is the answer `none`;
fuel bounds how deep calls nest and is lowered by every step into a chain.

The combinators are stated on arbitrary runs, so their laws hold whatever the
parts are. None of them looks at the text, they only call their parts and join
outcomes:

* a choice takes the first alternative that matches;
* a sequence follows every chain of matches of its parts in turn;
* a repetition follows every chain of matches of one part;
* a sentence keeps the matches that reach the end of the text.

A sequence entered again at one position more often than there is text left
refuses to recurse, which bounds left recursion. Whatever it found there
before, on an earlier and deeper pass, is joined to what it finds now.

Key definitions: `Run`, `Run.choice`, `Run.sequence`, `Run.repetition`,
`Run.sentence`, `Run.orEmpty`.
-/
import Curtail.Node.Builder
import Curtail.Parse.Outcome
import Curtail.Parse.Session

namespace Curtail

/-- What a parser does when it is called; `none` is out of fuel. -/
abbrev Run := Tally → Reader → Session → Option (Outcome × Session)

namespace Run

/-- The outcomes of `f` for some matches in turn, joined. -/
def gather (f : Match → Session → Option (Outcome × Session)) :
    List Match → Session → Option (Outcome × Session)
  | [], s => some (∅, s)
  | m :: ms, s =>
    match f m s with
    | none => none
    | some (out, s) =>
      match gather f ms s with
      | none => none
      | some (rest, s) => some (out ++ rest, s)

/-! ### Choice -/

/-- The first alternative that matches. The faults of those before it count. -/
def choice : List Run → Run
  | [], _, _, s => some (∅, s)
  | p :: ps, d, r, s =>
    match p d r s.countCall with
    | none => none
    | some (out, s) =>
      if out.isMatch then some (out, s)
      else
        match choice ps d r s with
        | none => none
        | some (rest, s) => some (out ++ rest, s)

/-! ### Sequences -/

/-- The parts of a sequence by index, their names, the lengths at which the sequence may end, and
what becomes of the nodes. -/
structure Steps where
  part : Nat → Option Run
  name : Nat → String
  accepts : Nat → Bool
  build : Builder

/-- The match of a chain of parts that ends at `r`; its nodes come newest first. -/
def Steps.finish (steps : Steps) (r : Reader) (nodes : List Node) : Outcome :=
  .matched ⟨steps.build nodes.reverse, r⟩

/-- The match of a chain of `k` parts that ends at `r`, if the sequence may end there. -/
def Steps.finishIf (steps : Steps) (r : Reader) (k : Nat) (nodes : List Node) : Outcome :=
  if steps.accepts k then steps.finish r nodes else ∅

/-- The fault of the part after `k` others: its own, or that it was expected, if the sequence
cannot end before it and nothing else explains why it did not match. -/
def Steps.faultAt (steps : Steps) (r : Reader) (k : Nat) (out : Outcome) : Option Fault :=
  if decide (0 < k) && !steps.accepts k && !out.isMatch && out.fault.isNone &&
      out.curtailed.isEmpty then
    some (.expecting r.token.cursor (steps.name k))
  else out.fault

/-- The depths after a step from `r` to `next`: none once text was read. -/
def depthsAfter (d : Tally) (r next : Reader) : Tally :=
  if r.cursor.offset < next.cursor.offset then .zero else d

/-- Every chain of parts that goes on from `r` after `k` parts with the given nodes, the newest
first. A longer chain comes before the chain it extends. -/
def walk (steps : Steps) :
    Nat → Tally → Reader → Nat → List Node → Session → Option (Outcome × Session)
  | 0, _, _, _, _, _ => none
  | fuel + 1, d, r, k, nodes, s =>
    match steps.part k with
    | none => some (steps.finishIf r k nodes, s)
    | some p =>
      match p d r s with
      | none => none
      | some (out, s) =>
        match gather (fun m s =>
            walk steps fuel (depthsAfter d r m.reader) m.reader (k + 1) (m.node.toList ++ nodes) s)
            out.results.items s with
        | none => none
        | some (rest, s) =>
          some (.reports (steps.faultAt r k out) out.curtailed ++ rest ++ steps.finishIf r k nodes, s)

/-- Whether the sequence `id` must not be entered again at `r`. -/
def refuses (d : Tally) (r : Reader) (id : Nat) : Bool := decide (r.remaining + 1 < d.get id)

/-- A sequence. `name` is what it is called in the journal. -/
def sequence (fuel : Nat) (key : Key) (name : String) (steps : Steps) : Run := fun d r s =>
  let (id, s) := s.countCall.register key
  if refuses d r id then some (.refused id, s.note (.refusal id name r.cursor))
  else
    match walk steps fuel (d.inc id) r 0 [] s with
    | none => none
    | some (out, s) =>
      let (results, s) := s.grow id r.cursor.offset out.results
      some ({ out with results }, s)

/-! ### Repetitions -/

/-- How often a part may be repeated, and what becomes of the nodes. -/
structure Bounds where
  least : Nat
  most : Option Nat
  build : Builder

/-- Whether no further repetition is allowed after `count` of them. -/
def Bounds.full (b : Bounds) (count : Nat) : Bool := b.most.any fun most => decide (most ≤ count)

/-- The match of a chain of `count` repetitions that ends at `r`, if that is often enough; its nodes
come newest first. -/
def Bounds.finish (b : Bounds) (r : Reader) (nodes : List Node) (count : Nat) : Outcome :=
  if count < b.least then ∅
  else .matched ⟨if count = 0 then none else b.build nodes.reverse, r⟩

/-- Every chain of repetitions that goes on from `r` after `count` of them. A chain ends where the
part does not match any more, and its nodes come newest first. A repetition that reads nothing is
tried once more at the same place (`stalled`), then its chain ends. -/
def cycle (b : Bounds) (p : Run) :
    Nat → Tally → Reader → List Node → Nat → Bool → Session → Option (Outcome × Session)
  | 0, _, _, _, _, _, _ => none
  | fuel + 1, d, r, nodes, count, stalled, s =>
    if b.full count then some (b.finish r nodes count, s)
    else
      match p d r s with
      | none => none
      | some (out, s) =>
        if out.isMatch then
          match gather (fun m s =>
              let nodes := m.node.toList ++ nodes
              if r.cursor.offset < m.stopOffset then
                cycle b p fuel .zero m.reader nodes (count + 1) false s
              else if stalled then some (b.finish m.reader nodes (count + 1), s)
              else cycle b p fuel d m.reader nodes (count + 1) true s)
              out.results.items s with
          | none => none
          | some (rest, s) => some (.reports out.fault out.curtailed ++ rest, s)
        else some (.reports out.fault out.curtailed ++ b.finish r nodes count, s)

/-- A repetition. -/
def repetition (fuel : Nat) (b : Bounds) (p : Run) : Run := fun d r s =>
  cycle b p fuel d r [] 0 false s.countCall

/-! ### The end of the text -/

/-- The matches that reach the end of the text. -/
def complete (results : Matches) : Matches :=
  ⟨results.items.filter (·.reader.atEnd), results.sorted.sublist List.filter_sublist⟩

/-- Where the text goes on after the longest match that does not reach its end. -/
def trailing? (results : Matches) : Option Position :=
  (results.items.filter (!·.reader.atEnd)).getLast?.map (·.reader.token.cursor)

/-- The matches of a part that reach the end of the text. If there are only others, that is a
fault after the longest of them. -/
def atEnd (out : Outcome) : Outcome :=
  let kept := complete out.results
  let fault :=
    if kept.isEmpty then
      match trailing? out.results with
      | some place => Fault.furthest (some (.trailing place)) out.fault
      | none => out.fault
    else out.fault
  ⟨kept, fault, out.curtailed⟩

/-- A part that has to reach the end of the text. -/
def sentence (p : Run) : Run := fun d r s =>
  match p d r s.countCall with
  | none => none
  | some (out, s) => some (atEnd out, s)

/-- An outcome, or an empty branch at `r` if there is no match. -/
def withEmpty (token : String) (r : Reader) (out : Outcome) : Outcome :=
  if out.isMatch then out
  else { out with results := out.results.insert ⟨some (.emptyGroup token r.cursor none), r⟩ }

/-- A part that may also match nothing, as an empty branch. -/
def orEmpty (token : String) (p : Run) : Run := fun d r s =>
  match p d r s with
  | none => none
  | some (out, s) => some (withEmpty token r out, s)

end Run

end Curtail
