/-
# What a finished call has done

Each combinator either is out of fuel or went through definite steps: a choice
called its first alternative and perhaps the others, a sequence refused or
walked, a walk called one part and went on from each of its matches. These are
the equivalences that every later induction over a run opens a call with, so
that no proof but these unfolds a combinator.

Where two runs are compared, running out of fuel counts too: the same steps are
stated as equations there, with `none` passed on by `Option.bind`.

Key definitions: `Run.walkOn`, `Run.cycleOn`.
Key theorems: `Run.gather_cons_eq_some`, `Run.choice_cons_eq_some`,
`Run.walk_succ_eq_some`, `Run.sequence_eq_some`, `Run.cycle_succ_eq_some`.
-/
import Curtail.Grammar

namespace Curtail
namespace Run

variable {d : Tally} {r : Reader} {s : Session} {x : Outcome × Session}

/-- The walk that goes on from the match `m` of the part after `k` others. -/
def walkOn (steps : Steps) (fuel : Nat) (d : Tally) (r : Reader) (k : Nat) (nodes : List Node)
    (m : Match) (s : Session) : Option (Outcome × Session) :=
  walk steps fuel (depthsAfter d r m.reader) m.reader (k + 1) (m.node.toList ++ nodes) s

/-- The cycle that goes on from the match `m` of the part after `count` repetitions. -/
def cycleOn (b : Bounds) (p : Run) (fuel : Nat) (d : Tally) (r : Reader) (nodes : List Node)
    (count : Nat) (stalled : Bool) (m : Match) (s : Session) : Option (Outcome × Session) :=
  if r.cursor.offset < m.stopOffset then
    cycle b p fuel .zero m.reader (m.node.toList ++ nodes) (count + 1) false s
  else if stalled then some (b.finish m.reader (m.node.toList ++ nodes) (count + 1), s)
  else cycle b p fuel d m.reader (m.node.toList ++ nodes) (count + 1) true s

/-- Nodes come newest first; the oldest of them stand before the node of the next match. -/
theorem reverse_toList_append (m : Match) (nodes : List Node) :
    (m.node.toList ++ nodes).reverse = nodes.reverse ++ m.node.toList := by
  cases m.node <;> simp

theorem gather_cons (f : Match → Session → Option (Outcome × Session)) (m : Match) (ms : List Match)
    (s : Session) : gather f (m :: ms) s =
      (f m s).bind fun x => (gather f ms x.2).map fun y => (x.1 ++ y.1, y.2) := by
  rw [gather]
  cases f m s with
  | none => rfl
  | some x =>
    simp only [Option.bind_some]
    cases gather f ms x.2 <;> rfl

theorem gather_cons_eq_some {f : Match → Session → Option (Outcome × Session)} {m : Match}
    {ms : List Match} :
    gather f (m :: ms) s = some x ↔ ∃ out s₁ rest s₂, f m s = some (out, s₁) ∧
      gather f ms s₁ = some (rest, s₂) ∧ x = (out ++ rest, s₂) := by
  rw [gather_cons]
  constructor
  · intro h
    obtain ⟨y, hf, h⟩ := Option.bind_eq_some_iff.mp h
    obtain ⟨z, hg, rfl⟩ := Option.map_eq_some_iff.mp h
    exact ⟨y.1, y.2, z.1, z.2, hf, hg, rfl⟩
  · rintro ⟨out, s₁, rest, s₂, hf, hg, rfl⟩
    simp only [hf, hg, Option.bind_some, Option.map_some]

theorem choice_cons (p : Run) (ps : List Run) (d : Tally) (r : Reader) (s : Session) :
    choice (p :: ps) d r s = (p d r s.countCall).bind fun x =>
      if x.1.isMatch then some x else (choice ps d r x.2).map fun y => (x.1 ++ y.1, y.2) := by
  rw [choice]
  cases p d r s.countCall with
  | none => rfl
  | some x =>
    simp only [Option.bind_some]
    split
    · rfl
    · cases choice ps d r x.2 <;> rfl

theorem choice_cons_eq_some {p : Run} {ps : List Run} :
    choice (p :: ps) d r s = some x ↔ ∃ out s₁, p d r s.countCall = some (out, s₁) ∧
      ((out.isMatch = true ∧ x = (out, s₁)) ∨ (out.isMatch = false ∧
        ∃ rest s₂, choice ps d r s₁ = some (rest, s₂) ∧ x = (out ++ rest, s₂))) := by
  rw [choice_cons]
  constructor
  · intro h
    obtain ⟨y, hp, h⟩ := Option.bind_eq_some_iff.mp h
    refine ⟨y.1, y.2, hp, ?_⟩
    cases hm : y.1.isMatch with
    | true =>
      simp only [hm, if_true, Option.some.injEq] at h
      exact .inl ⟨rfl, h.symm⟩
    | false =>
      simp only [hm, Bool.false_eq_true, if_false] at h
      obtain ⟨z, hc, rfl⟩ := Option.map_eq_some_iff.mp h
      exact .inr ⟨rfl, z.1, z.2, hc, rfl⟩
  · rintro ⟨out, s₁, hp, ⟨hm, rfl⟩ | ⟨hm, rest, s₂, hc, rfl⟩⟩
    · simp only [hp, hm, Option.bind_some, if_true]
    · simp only [hp, hm, hc, Option.bind_some, Option.map_some, Bool.false_eq_true, if_false]

theorem walk_succ (steps : Steps) (fuel k : Nat) (nodes : List Node) :
    walk steps (fuel + 1) d r k nodes s =
      match steps.part k with
      | none => some (steps.finishIf r k nodes, s)
      | some p =>
        match p d r s with
        | none => none
        | some (out, s) =>
          match gather (walkOn steps fuel d r k nodes) out.results.items s with
          | none => none
          | some (rest, s) =>
            some (.reports (steps.faultAt r k out) out.curtailed ++ rest ++ steps.finishIf r k nodes,
              s) := rfl

theorem walk_succ_of_part {steps : Steps} {p : Run} {k : Nat} (hk : steps.part k = some p)
    (fuel : Nat) (nodes : List Node) :
    walk steps (fuel + 1) d r k nodes s = (p d r s).bind fun x =>
      (gather (walkOn steps fuel d r k nodes) x.1.results.items x.2).map fun y =>
        (.reports (steps.faultAt r k x.1) x.1.curtailed ++ y.1 ++ steps.finishIf r k nodes, y.2) := by
  rw [walk_succ, hk]
  simp only
  cases p d r s with
  | none => rfl
  | some x =>
    simp only [Option.bind_some]
    cases gather (walkOn steps fuel d r k nodes) x.1.results.items x.2 <;> rfl

theorem walk_succ_eq_some {steps : Steps} {fuel k : Nat} {nodes : List Node} :
    walk steps (fuel + 1) d r k nodes s = some x ↔
      (steps.part k = none ∧ x = (steps.finishIf r k nodes, s)) ∨
      ∃ p out s₁ rest s₂, steps.part k = some p ∧ p d r s = some (out, s₁) ∧
        gather (walkOn steps fuel d r k nodes) out.results.items s₁ = some (rest, s₂) ∧
        x = (.reports (steps.faultAt r k out) out.curtailed ++ rest ++ steps.finishIf r k nodes,
          s₂) := by
  cases hk : steps.part k with
  | none =>
    rw [walk_succ, hk]
    simp [eq_comm]
  | some p =>
    rw [walk_succ_of_part hk]
    constructor
    · intro h
      obtain ⟨y, hp, h⟩ := Option.bind_eq_some_iff.mp h
      obtain ⟨z, hg, rfl⟩ := Option.map_eq_some_iff.mp h
      exact .inr ⟨p, y.1, y.2, z.1, z.2, rfl, hp, hg, rfl⟩
    · rintro (⟨hnone, -⟩ | ⟨p', out, s₁, rest, s₂, hp', hp, hg, rfl⟩)
      · cases hnone
      · cases hp'
        simp only [hp, hg, Option.bind_some, Option.map_some]

theorem sequence_eq (fuel : Nat) (key : Key) (name : String) (steps : Steps) :
    sequence fuel key name steps d r s =
      let (id, s) := s.countCall.register key
      if refuses d r id then some (.refused id, s.note (.refusal id name r.cursor))
      else (walk steps fuel (d.inc id) r 0 [] s).map fun x =>
        ({ x.1 with results := (x.2.grow id r.cursor.offset x.1.results).1 },
          (x.2.grow id r.cursor.offset x.1.results).2) := by
  unfold sequence
  simp only
  split
  · rfl
  · cases walk steps fuel (d.inc (s.countCall.register key).1) r 0 []
      (s.countCall.register key).2 <;> rfl

theorem sequence_eq_some {fuel : Nat} {key : Key} {name : String} {steps : Steps} :
    sequence fuel key name steps d r s = some x ↔
      (refuses d r (s.countCall.register key).1 = true ∧
        x = (.refused (s.countCall.register key).1, (s.countCall.register key).2.note
          (.refusal (s.countCall.register key).1 name r.cursor))) ∨
      (refuses d r (s.countCall.register key).1 = false ∧ ∃ out s₁,
        walk steps fuel (d.inc (s.countCall.register key).1) r 0 []
          (s.countCall.register key).2 = some (out, s₁) ∧
        x = ({ out with results :=
            (s₁.grow (s.countCall.register key).1 r.cursor.offset out.results).1 },
          (s₁.grow (s.countCall.register key).1 r.cursor.offset out.results).2)) := by
  rw [sequence_eq]
  constructor
  · intro h
    cases hr : refuses d r (s.countCall.register key).1 with
    | true =>
      simp only [hr, if_true, Option.some.injEq] at h
      exact .inl ⟨rfl, h.symm⟩
    | false =>
      simp only [hr, Bool.false_eq_true, if_false] at h
      obtain ⟨y, hw, rfl⟩ := Option.map_eq_some_iff.mp h
      exact .inr ⟨rfl, y.1, y.2, hw, rfl⟩
  · rintro (⟨hr, rfl⟩ | ⟨hr, out, s₁, hw, rfl⟩)
    · simp only [hr, if_true]
    · simp only [hr, hw, Option.map_some, Bool.false_eq_true, if_false]

theorem cycle_succ (b : Bounds) (p : Run) (fuel : Nat) (nodes : List Node) (count : Nat)
    (stalled : Bool) :
    cycle b p (fuel + 1) d r nodes count stalled s =
      if b.full count then some (b.finish r nodes count, s)
      else
        match p d r s with
        | none => none
        | some (out, s) =>
          if out.isMatch then
            match gather (cycleOn b p fuel d r nodes count stalled) out.results.items s with
            | none => none
            | some (rest, s) => some (.reports out.fault out.curtailed ++ rest, s)
          else some (.reports out.fault out.curtailed ++ b.finish r nodes count, s) := rfl

theorem cycle_succ_eq (b : Bounds) (p : Run) (fuel : Nat) (nodes : List Node) (count : Nat)
    (stalled : Bool) :
    cycle b p (fuel + 1) d r nodes count stalled s =
      if b.full count then some (b.finish r nodes count, s)
      else (p d r s).bind fun x =>
        if x.1.isMatch then
          (gather (cycleOn b p fuel d r nodes count stalled) x.1.results.items x.2).map fun y =>
            (.reports x.1.fault x.1.curtailed ++ y.1, y.2)
        else some (.reports x.1.fault x.1.curtailed ++ b.finish r nodes count, x.2) := by
  rw [cycle_succ]
  split
  · rfl
  · cases p d r s with
    | none => rfl
    | some x =>
      simp only [Option.bind_some]
      split
      · cases gather (cycleOn b p fuel d r nodes count stalled) x.1.results.items x.2 <;> rfl
      · rfl

theorem cycle_succ_eq_some {b : Bounds} {p : Run} {fuel : Nat} {nodes : List Node} {count : Nat}
    {stalled : Bool} :
    cycle b p (fuel + 1) d r nodes count stalled s = some x ↔
      (b.full count = true ∧ x = (b.finish r nodes count, s)) ∨
      (b.full count = false ∧ ∃ out s₁, p d r s = some (out, s₁) ∧
        ((out.isMatch = false ∧
            x = (.reports out.fault out.curtailed ++ b.finish r nodes count, s₁)) ∨
          (out.isMatch = true ∧ ∃ rest s₂,
            gather (cycleOn b p fuel d r nodes count stalled) out.results.items s₁ =
              some (rest, s₂) ∧ x = (.reports out.fault out.curtailed ++ rest, s₂)))) := by
  rw [cycle_succ_eq]
  constructor
  · intro h
    cases hb : b.full count with
    | true =>
      simp only [hb, if_true, Option.some.injEq] at h
      exact .inl ⟨rfl, h.symm⟩
    | false =>
      simp only [hb, Bool.false_eq_true, if_false] at h
      obtain ⟨y, hp, h⟩ := Option.bind_eq_some_iff.mp h
      refine .inr ⟨rfl, y.1, y.2, hp, ?_⟩
      cases hm : y.1.isMatch with
      | false =>
        simp only [hm, Bool.false_eq_true, if_false, Option.some.injEq] at h
        exact .inl ⟨rfl, h.symm⟩
      | true =>
        simp only [hm, if_true] at h
        obtain ⟨z, hg, rfl⟩ := Option.map_eq_some_iff.mp h
        exact .inr ⟨rfl, z.1, z.2, hg, rfl⟩
  · rintro (⟨hb, rfl⟩ | ⟨hb, out, s₁, hp, ⟨hm, rfl⟩ | ⟨hm, rest, s₂, hg, rfl⟩⟩)
    · simp only [hb, if_true]
    · simp only [hb, hp, hm, Option.bind_some, Bool.false_eq_true, if_false]
    · simp only [hb, hp, hm, hg, Option.bind_some, Option.map_some, Bool.false_eq_true, if_false,
        if_true]

theorem sentence_eq (p : Run) :
    sentence p d r s = (p d r s.countCall).map fun x => (atEnd x.1, x.2) := by
  unfold sentence
  cases p d r s.countCall <;> rfl

theorem sentence_eq_some {p : Run} : sentence p d r s = some x ↔
    ∃ out s₁, p d r s.countCall = some (out, s₁) ∧ x = (atEnd out, s₁) := by
  rw [sentence_eq]
  constructor
  · intro h
    obtain ⟨y, hp, rfl⟩ := Option.map_eq_some_iff.mp h
    exact ⟨y.1, y.2, hp, rfl⟩
  · rintro ⟨out, s₁, hp, rfl⟩
    simp only [hp, Option.map_some]

theorem orEmpty_eq (token : String) (p : Run) :
    orEmpty token p d r s = (p d r s).map fun x => (withEmpty token r x.1, x.2) := by
  unfold orEmpty
  cases p d r s <;> rfl

theorem orEmpty_eq_some {token : String} {p : Run} : orEmpty token p d r s = some x ↔
    ∃ out s₁, p d r s = some (out, s₁) ∧ x = (withEmpty token r out, s₁) := by
  rw [orEmpty_eq]
  constructor
  · intro h
    obtain ⟨y, hp, rfl⟩ := Option.map_eq_some_iff.mp h
    exact ⟨y.1, y.2, hp, rfl⟩
  · rintro ⟨out, s₁, hp, rfl⟩
    simp only [hp, Option.map_some]

/-- The matches of a part, or a branch without children that stands at the reader. -/
theorem items_withEmpty (token : String) (r : Reader) (out : Outcome) :
    (withEmpty token r out).results.items =
      if out.isMatch then out.results.items
      else [⟨some (.branch token [] none r.cursor r.cursor), r⟩] := by
  unfold withEmpty
  cases hmatch : out.isMatch with
  | true => rfl
  | false =>
    have hempty : out.results = ∅ := Ascending.ext (Outcome.items_eq_nil hmatch)
    rw [hempty]
    rfl

end Run

namespace Parser

variable {rules : Rules}

/-- The steps of a sequence of parsers. -/
def steps (rules : Rules) (n : Nat) (build : Builder) (accepts : Nat → Bool) (lookup : Nat → Option Nat)
    (parts : List Parser) : Run.Steps where
  part i := (pick lookup parts i).map (run rules n)
  name i := ((pick lookup parts i).map name).getD ""
  accepts := accepts
  build := build

theorem run_leaf (n : Nat) (l : Leaf) :
    run rules (n + 1) (.leaf l) = fun d r s => some (l.answer d r s.countCall) := rfl

theorem run_choice (n : Nat) (name : String) (ps : List Parser) :
    run rules (n + 1) (.choice name ps) = Run.choice (ps.map (run rules n)) := rfl

theorem run_sequence (n : Nat) (key : Key) (label : Option String) (build : Builder)
    (accepts : Nat → Bool) (lookup : Nat → Option Nat) (parts : List Parser) :
    run rules (n + 1) (.sequence key label build accepts lookup parts) =
      Run.sequence n key (Parser.sequence key label build accepts lookup parts).name
        (steps rules n build accepts lookup parts) := rfl

theorem run_repetition (n : Nat) (b : Run.Bounds) (p : Parser) :
    run rules (n + 1) (.repetition b p) = Run.repetition n b (run rules n p) := rfl

theorem run_sentence (n : Nat) (p : Parser) :
    run rules (n + 1) (.sentence p) = Run.sentence (run rules n p) := rfl

theorem run_orEmpty (n : Nat) (token : String) (p : Parser) :
    run rules (n + 1) (.orEmpty token p) = Run.orEmpty token (run rules n p) := rfl

theorem run_rule (n : Nat) (h : Handle) :
    run rules (n + 1) (.rule h) =
      match rules.state h.id with
      | .defined q => run rules n q
      | .undefined => fun _ _ s => some (.failed (.grammar (.undefined h.name)), s)
      | .dropped => fun _ _ s => some (.failed (.grammar (.dropped h.name)), s) := rfl

end Parser

end Curtail
