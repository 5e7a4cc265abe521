/-
# Engines that differ in their sequences

Left recursion is a matter of sequences alone: they refuse, and they remember.
An engine runs all other combinators in the one way there is and takes what a
sequence does from outside, so that two ways of running one grammar can be
compared. What parsers do is the engine whose sequences are the curtailed
ones. Plain recursive descent is the engine whose sequences walk over their
parts and do nothing else: called again where they are still being followed,
they never come to an end.

Key definitions: `Run.Engine`, `Parser.runBy`, `Run.descent`, `Parser.descend`.
Key theorems: `Parser.run_eq_runBy`.
-/
import Curtail.Proofs.Inversion

namespace Curtail

/-- What a sequence does, from the fuel for its walk, its key, its name and its steps. -/
abbrev Run.Engine := Nat → Key → String → Run.Steps → Run

/-- A plain sequence: it is counted and registered as any other, but it never refuses and remembers
nothing. -/
def Run.descent : Run.Engine := fun fuel key _ steps d r s =>
  walk steps fuel (d.inc (s.countCall.register key).1) r 0 [] (s.countCall.register key).2

namespace Parser

/-- What a parser does when its sequences do what `engine` says. -/
def runBy (rules : Rules) (engine : Run.Engine) : Nat → Parser → Run
  | 0, _ => fun _ _ _ => none
  | fuel + 1, p =>
    match p with
    | terminal t => fun _ r s => some (t.read r, s.countCall)
    | leaf l => fun d r s => some (l.answer d r s.countCall)
    | choice _ ps => Run.choice (ps.map (runBy rules engine fuel))
    | sequence key _ build accepts lookup parts =>
      engine fuel key p.name
        { part := fun i => (pick lookup parts i).map (runBy rules engine fuel)
          name := fun i => ((pick lookup parts i).map name).getD ""
          accepts, build }
    | repetition bounds q => Run.repetition fuel bounds (runBy rules engine fuel q)
    | sentence q => Run.sentence (runBy rules engine fuel q)
    | orEmpty token q => Run.orEmpty token (runBy rules engine fuel q)
    | rule h =>
      match rules.state h.id with
      | .defined q => runBy rules engine fuel q
      | .undefined => fun _ _ s => some (.failed (.grammar (.undefined h.name)), s)
      | .dropped => fun _ _ s => some (.failed (.grammar (.dropped h.name)), s)

/-- What a parser does under plain recursive descent. -/
def descend (rules : Rules) : Nat → Parser → Run := runBy rules Run.descent

variable {rules : Rules}

/-- What parsers do is the engine of curtailed sequences. -/
theorem run_eq_runBy (n : Nat) : run rules n = runBy rules Run.sequence n := by
  induction n with
  | zero => rfl
  | succ n ih =>
    funext p
    cases p with
    | terminal t => rfl
    | leaf l => rfl
    | choice name ps => simp only [run, runBy, ih]
    | sequence key label build accepts lookup parts => simp only [run, runBy, ih]
    | repetition b q => simp only [run, runBy, ih]
    | sentence q => simp only [run, runBy, ih]
    | orEmpty token q => simp only [run, runBy, ih]
    | rule h => cases hstate : rules.state h.id <;> simp only [run, runBy, hstate, ih]

/-- The steps of a sequence of parsers under an engine. -/
def stepsBy (rules : Rules) (engine : Run.Engine) (n : Nat) (build : Builder)
    (accepts : Nat → Bool) (lookup : Nat → Option Nat) (parts : List Parser) : Run.Steps where
  part i := (pick lookup parts i).map (runBy rules engine n)
  name i := ((pick lookup parts i).map name).getD ""
  accepts := accepts
  build := build

variable {engine : Run.Engine}

theorem runBy_sequence (n : Nat) (key : Key) (label : Option String) (build : Builder)
    (accepts : Nat → Bool) (lookup : Nat → Option Nat) (parts : List Parser) :
    runBy rules engine (n + 1) (.sequence key label build accepts lookup parts) =
      engine n key (Parser.sequence key label build accepts lookup parts).name
        (stepsBy rules engine n build accepts lookup parts) := rfl

theorem runBy_rule (n : Nat) (h : Handle) :
    runBy rules engine (n + 1) (.rule h) =
      match rules.state h.id with
      | .defined q => runBy rules engine n q
      | .undefined => fun _ _ s => some (.failed (.grammar (.undefined h.name)), s)
      | .dropped => fun _ _ s => some (.failed (.grammar (.dropped h.name)), s) := rfl

end Parser

end Curtail
