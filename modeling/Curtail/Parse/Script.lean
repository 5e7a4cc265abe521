/-
# Leaves that answer from a script

To try a grammar out, a leaf may be given its answers in advance: the first
call gets the first answer, and so on; after the last there is no match, or
the answers start over. Such a leaf counts its calls in the session, so it
goes on where it was when the memo is reset.

Key definitions: `Script`, `Script.leaf`, `Leaf.refusing`.
-/
import Curtail.Parse.Parser

namespace Curtail

/-- One prepared answer: where its matches end and their nodes, a fault, refusals. -/
structure Answer where
  results : List (Position × Option Node)
  fault : Option Fault
  curtailed : List Nat

/-- The answer given at a reader. -/
def Answer.outcome (a : Answer) (r : Reader) : Outcome :=
  ⟨.ofList _ (a.results.map fun (stop, node) => ⟨node, r.moveTo stop⟩), a.fault, .ofIds a.curtailed⟩

/-- Prepared answers; `number` tells scripts apart. -/
structure Script where
  number : Nat
  name : String
  answers : List Answer
  repeats : Bool

namespace Script

/-- The answer to the call after `count` others. -/
def answer? (script : Script) (count : Nat) : Option Answer :=
  if script.repeats then script.answers[count % script.answers.length]? else script.answers[count]?

/-- The leaf that answers from the script. -/
def leaf (script : Script) : Leaf where
  name := script.name
  answer _ r s :=
    let out := ((script.answer? (s.served.get script.number)).map (·.outcome r)).getD ∅
    (out, { s with served := s.served.inc script.number })

end Script

/-- A leaf that always refuses to recurse, in the name of the identity `id`. -/
def Leaf.refusing (id : Nat) : Leaf where
  name := "curtail"
  answer _ _ s := (.refused id, s)

/-- A leaf with its name, for people who debug a grammar. -/
def Leaf.debugText (l : Leaf) : String := "FnParser \x7b name: " ++ Text.quoted l.name ++ " \x7d"

/-- A rule, for people who debug a grammar. -/
def Rule.debugText (rule : Rule) : String :=
  let defined := match rule.state with | .defined _ => "true" | _ => "false"
  "Rule \x7b name: " ++ Text.quoted rule.name ++ s!", defined: {defined}" ++ " \x7d"

/-- A handle to a rule, for people who debug a grammar. -/
def Handle.debugText (h : Handle) : String := "RuleRef \x7b name: " ++ Text.quoted h.name ++ " \x7d"

end Curtail
