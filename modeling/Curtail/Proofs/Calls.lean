/-
# What a call calls

A run of a parser is a tree of calls. Which calls a call makes, in what order
and with what, depends on what comes of the earlier ones: a choice calls its
next alternative if the one before did not match, a sequence and a repetition
go on from each match in turn, when all that follows from the matches before it
has been tried. A call is made as soon as those before it have returned, whether
it ever returns itself or not, so this describes every moment of a run.

A sequence that has been entered and not been left is a frame of the calls in
it.

Nothing is called besides: a call whose parts behave otherwise anywhere but in
the calls it makes has the same answer.

Key definitions: `Frame`, `Call`, `Run.ChoiceCalls`, `Run.WalkCalls`,
`Run.CycleCalls`, `Call.Makes`.
Key theorems: `Call.answer_of_makes`.
-/
import Curtail.Proofs.Inversion

namespace Curtail

/-! ### Calls -/

namespace Run

/-- What a run is called with. -/
structure Args where
  depths : Tally
  reader : Reader
  session : Session

/-- A choice calls the alternative `i` in the session `s'`: it comes after others that did not
match. -/
inductive ChoiceCalls (d : Tally) (r : Reader) : List Run → Session → Nat → Session → Prop
  | here {p : Run} {ps : List Run} {s : Session} : ChoiceCalls d r (p :: ps) s 0 s.countCall
  | further {p : Run} {ps : List Run} {s s₁ s' : Session} {out : Outcome} {i : Nat} :
    p d r s.countCall = some (out, s₁) → out.isMatch = false → ChoiceCalls d r ps s₁ i s' →
      ChoiceCalls d r (p :: ps) s (i + 1) s'

/-- A walk from `a` after `k` parts calls the part `i` with `a'`: the next part, or one further on
from a match of it, when the matches before that one have been gone on from. -/
inductive WalkCalls (steps : Steps) : Nat → Args → Nat → List Node → Nat → Args → Prop
  | here {fuel k : Nat} {a : Args} {nodes : List Node} : WalkCalls steps (fuel + 1) a k nodes k a
  | further {fuel k i : Nat} {a a' : Args} {nodes : List Node} {p : Run} {out rest : Outcome}
    {s₁ s₂ : Session} {before after : List Match} {m : Match} :
    steps.part k = some p → p a.depths a.reader a.session = some (out, s₁) →
      out.results.items = before ++ m :: after →
      gather (walkOn steps fuel a.depths a.reader k nodes) before s₁ = some (rest, s₂) →
      WalkCalls steps fuel ⟨depthsAfter a.depths a.reader m.reader, m.reader, s₂⟩ (k + 1)
        (m.node.toList ++ nodes) i a' →
      WalkCalls steps (fuel + 1) a k nodes i a'

/-- A repetition that goes on from `a` after `count` rounds calls its part with `a'`: at once, or
further on from a match, when the matches before that one have been gone on from. -/
inductive CycleCalls (b : Bounds) (p : Run) : Nat → Args → List Node → Nat → Bool → Args → Prop
  | here {fuel count : Nat} {a : Args} {nodes : List Node} {stalled : Bool} :
    b.full count = false → CycleCalls b p (fuel + 1) a nodes count stalled a
  | further {fuel count : Nat} {a a' : Args} {nodes : List Node} {stalled : Bool}
    {out rest : Outcome} {s₁ s₂ : Session} {before after : List Match} {m : Match} :
    b.full count = false → p a.depths a.reader a.session = some (out, s₁) →
      out.results.items = before ++ m :: after →
      gather (cycleOn b p fuel a.depths a.reader nodes count stalled) before s₁ = some (rest, s₂) →
      (a.reader.cursor.offset < m.stopOffset ∨ stalled = false) →
      CycleCalls b p fuel ⟨depthsAfter a.depths a.reader m.reader, m.reader, s₂⟩
        (m.node.toList ++ nodes) (count + 1) (!decide (a.reader.cursor.offset < m.stopOffset)) a' →
      CycleCalls b p (fuel + 1) a nodes count stalled a'

end Run

/-- A sequence that was entered and has not been left: its key, the identity it had, and where. -/
structure Frame where
  key : Key
  id : Nat
  offset : Nat
deriving DecidableEq

/-- A call of a parser, with the frames that are active, innermost first. -/
structure Call extends Run.Args where
  fuel : Nat
  parser : Parser
  frames : List Frame

namespace Call

/-- What comes of a call. -/
def answer (rules : Rules) (c : Call) : Option (Outcome × Session) :=
  c.parser.run rules c.fuel c.depths c.reader c.session

/-- One call makes another. A sequence that is not refused is a frame of all it calls. -/
inductive Makes (rules : Rules) : Call → Call → Prop
  | choice {a : Run.Args} {n i : Nat} {name : String} {ps : List Parser} {q : Parser} {s : Session}
    {frames : List Frame} :
    Run.ChoiceCalls a.depths a.reader (ps.map (Parser.run rules n)) a.session i s →
      ps[i]? = some q →
      Makes rules ⟨a, n + 1, .choice name ps, frames⟩ ⟨⟨a.depths, a.reader, s⟩, n, q, frames⟩
  | sequence {a a' : Run.Args} {n i : Nat} {key : Key} {label : Option String} {build : Builder}
    {accepts : Nat → Bool} {lookup : Nat → Option Nat} {parts : List Parser} {q : Parser}
    {frames : List Frame} :
    Run.refuses a.depths a.reader (a.session.countCall.register key).1 = false →
      Run.WalkCalls (Parser.steps rules n build accepts lookup parts) n
        ⟨a.depths.inc (a.session.countCall.register key).1, a.reader,
          (a.session.countCall.register key).2⟩ 0 [] i a' →
      Parser.pick lookup parts i = some q →
      Makes rules ⟨a, n + 1, .sequence key label build accepts lookup parts, frames⟩
        ⟨a', n, q, ⟨key, (a.session.countCall.register key).1, a.reader.cursor.offset⟩ :: frames⟩
  | repetition {a a' : Run.Args} {n : Nat} {b : Run.Bounds} {q : Parser} {frames : List Frame} :
    Run.CycleCalls b (Parser.run rules n q) n ⟨a.depths, a.reader, a.session.countCall⟩ [] 0 false
        a' →
      Makes rules ⟨a, n + 1, .repetition b q, frames⟩ ⟨a', n, q, frames⟩
  | sentence {a : Run.Args} {n : Nat} {q : Parser} {frames : List Frame} :
    Makes rules ⟨a, n + 1, .sentence q, frames⟩
      ⟨⟨a.depths, a.reader, a.session.countCall⟩, n, q, frames⟩
  | orEmpty {a : Run.Args} {n : Nat} {token : String} {q : Parser} {frames : List Frame} :
    Makes rules ⟨a, n + 1, .orEmpty token q, frames⟩ ⟨a, n, q, frames⟩
  | rule {a : Run.Args} {n : Nat} {h : Handle} {q : Parser} {frames : List Frame} :
    rules.state h.id = .defined q → Makes rules ⟨a, n + 1, .rule h, frames⟩ ⟨a, n, q, frames⟩

end Call

/-! ### Nothing else is called -/

namespace Run

variable {d : Tally} {r : Reader}

theorem gather_congr {f g : Match → Session → Option (Outcome × Session)} :
    ∀ {ms : List Match} {s : Session}, (∀ before m after rest s', ms = before ++ m :: after →
      gather g before s = some (rest, s') → f m s' = g m s') → gather f ms s = gather g ms s
  | [], _, _ => rfl
  | m :: ms, s, h => by
    rw [gather_cons, gather_cons, h [] m ms ∅ s rfl rfl]
    cases hm : g m s with
    | none => rfl
    | some x =>
      have hrest : gather f ms x.2 = gather g ms x.2 := gather_congr
        fun before m' after rest s' hsplit hbefore => by
          refine h (m :: before) m' after (x.1 ++ rest) s' (by rw [hsplit, List.cons_append]) ?_
          exact gather_cons_eq_some.mpr ⟨x.1, x.2, rest, s', hm, hbefore, rfl⟩
      simp only [Option.bind_some, hrest]

theorem choice_congr {α : Type} {f g : α → Run} : ∀ {as : List α} {s : Session},
    (∀ i s' a, ChoiceCalls d r (as.map g) s i s' → as[i]? = some a → f a d r s' = g a d r s') →
      choice (as.map f) d r s = choice (as.map g) d r s
  | [], _, _ => rfl
  | a :: as, s, h => by
    rw [List.map_cons, List.map_cons, choice_cons, choice_cons, h 0 s.countCall a .here rfl]
    cases ha : g a d r s.countCall with
    | none => rfl
    | some x =>
      simp only [Option.bind_some]
      cases hmatch : x.1.isMatch with
      | true => rfl
      | false =>
        have hrest : choice (as.map f) d r x.2 = choice (as.map g) d r x.2 := choice_congr
          fun i s' b hcalls hb => h (i + 1) s' b (.further ha hmatch hcalls) hb
        simp only [hrest]

/-- The induction is on the fuel of the walk; the calls further on are those that it makes from the
matches in turn. -/
theorem walk_congr {steps : Steps} {part : Nat → Option Run} : ∀ {fuel : Nat} {a : Args} {k : Nat}
    {nodes : List Node}, (∀ i a', WalkCalls steps fuel a k nodes i a' →
      (part i).map (fun p => p a'.depths a'.reader a'.session) =
        (steps.part i).map fun p => p a'.depths a'.reader a'.session) →
    walk { steps with part } fuel a.depths a.reader k nodes a.session =
      walk steps fuel a.depths a.reader k nodes a.session
  | 0, _, _, _, _ => rfl
  | fuel + 1, a, k, nodes, h => by
    have hnext := h k a .here
    cases hk : steps.part k with
    | none =>
      have hnone : part k = none := by simpa [hk] using hnext
      rw [walk_succ, walk_succ, hk, show ({ steps with part } : Steps).part k = none from hnone]
      rfl
    | some p =>
      rw [hk] at hnext
      obtain ⟨q, hq, hsame : q a.depths a.reader a.session = p a.depths a.reader a.session⟩ :=
        Option.map_eq_some_iff.mp hnext
      rw [walk_succ_of_part hk, walk_succ_of_part (show ({ steps with part } : Steps).part k = some q
        from hq), hsame]
      cases hp : p a.depths a.reader a.session with
      | none => rfl
      | some x =>
        have hrest : gather (walkOn { steps with part } fuel a.depths a.reader k nodes)
            x.1.results.items x.2 =
            gather (walkOn steps fuel a.depths a.reader k nodes) x.1.results.items x.2 :=
          gather_congr fun before m after rest s' hitems hbefore => walk_congr
            (a := ⟨depthsAfter a.depths a.reader m.reader, m.reader, s'⟩) fun i a' hcalls =>
              h i a' (.further hk hp hitems hbefore hcalls)
        simp only [Option.bind_some, hrest]
        rfl

theorem cycle_congr {b : Bounds} {p q : Run} : ∀ {fuel : Nat} {a : Args} {nodes : List Node}
    {count : Nat} {stalled : Bool}, (∀ a', CycleCalls b p fuel a nodes count stalled a' →
      q a'.depths a'.reader a'.session = p a'.depths a'.reader a'.session) →
    cycle b q fuel a.depths a.reader nodes count stalled a.session =
      cycle b p fuel a.depths a.reader nodes count stalled a.session
  | 0, _, _, _, _, _ => rfl
  | fuel + 1, a, nodes, count, stalled, h => by
    rw [cycle_succ_eq, cycle_succ_eq]
    cases hfull : b.full count with
    | true => rfl
    | false =>
      rw [h a (.here hfull)]
      cases hp : p a.depths a.reader a.session with
      | none => rfl
      | some x =>
        have hrest : gather (cycleOn b q fuel a.depths a.reader nodes count stalled)
            x.1.results.items x.2 =
            gather (cycleOn b p fuel a.depths a.reader nodes count stalled) x.1.results.items
              x.2 := gather_congr fun before m after rest s' hitems hbefore => by
          have hon : (a.reader.cursor.offset < m.stopOffset ∨ stalled = false) → ∀ a',
              CycleCalls b p fuel ⟨depthsAfter a.depths a.reader m.reader, m.reader, s'⟩
                (m.node.toList ++ nodes) (count + 1)
                (!decide (a.reader.cursor.offset < m.stopOffset)) a' →
              q a'.depths a'.reader a'.session = p a'.depths a'.reader a'.session :=
            fun hgo a' hcalls => h a' (.further hfull hp hitems hbefore hgo hcalls)
          unfold cycleOn
          by_cases hlt : a.reader.cursor.offset < m.stopOffset
          · have hcycle := cycle_congr (hon (.inl hlt))
            simp only [depthsAfter, show a.reader.cursor.offset < m.reader.cursor.offset from hlt,
              hlt, if_true, decide_true, Bool.not_true] at hcycle
            simp only [hlt, if_true]
            exact hcycle
          · cases stalled with
            | true => simp only [hlt, if_false, if_true]
            | false =>
              have hcycle := cycle_congr (hon (.inr rfl))
              simp only [depthsAfter,
                show ¬ a.reader.cursor.offset < m.reader.cursor.offset from hlt, hlt, if_false,
                decide_false, Bool.not_false] at hcycle
              simp only [hlt, if_false, Bool.false_eq_true]
              exact hcycle
        simp only [Option.bind_some, hrest]

end Run

/-- What a parser does with fuel `n + 1` when its parts do what `f` says. -/
def Parser.runWith (rules : Rules) (n : Nat) (f : Parser → Run) : Parser → Run
  | .terminal t => fun _ r s => some (t.read r, s.countCall)
  | .leaf l => fun d r s => some (l.answer d r s.countCall)
  | .choice _ ps => Run.choice (ps.map f)
  | .sequence key label build accepts lookup parts =>
    Run.sequence n key (Parser.sequence key label build accepts lookup parts).name
      { Parser.steps rules n build accepts lookup parts with
        part := fun i => (Parser.pick lookup parts i).map f }
  | .repetition b q => Run.repetition n b (f q)
  | .sentence q => Run.sentence (f q)
  | .orEmpty token q => Run.orEmpty token (f q)
  | .rule h =>
    match rules.state h.id with
    | .defined q => f q
    | .undefined => fun _ _ s => some (.failed (.grammar (.undefined h.name)), s)
    | .dropped => fun _ _ s => some (.failed (.grammar (.dropped h.name)), s)

/-- What parsers do is what their parts make of them. -/
theorem Parser.run_eq_runWith (rules : Rules) (n : Nat) (p : Parser) :
    p.run rules (n + 1) = p.runWith rules n (run rules n) := by
  cases p <;> rfl

/-- **A call depends on the calls it makes, and on nothing else.** Parts that do as they would in
those calls, and anything anywhere else, lead to the same answer. -/
theorem Call.answer_of_makes {rules : Rules} {a : Run.Args} {n : Nat} {p : Parser}
    {frames : List Frame} {f : Parser → Run}
    (h : ∀ c, Makes rules ⟨a, n + 1, p, frames⟩ c →
      f c.parser c.depths c.reader c.session = c.answer rules) :
    p.runWith rules n f a.depths a.reader a.session = answer rules ⟨a, n + 1, p, frames⟩ := by
  show _ = p.run rules (n + 1) a.depths a.reader a.session
  rw [Parser.run_eq_runWith]
  cases p with
  | terminal t => rfl
  | leaf l => rfl
  | choice name ps => exact Run.choice_congr fun i s q hcalls hq => h _ (.choice hcalls hq)
  | sequence key label build accepts lookup parts =>
    simp only [Parser.runWith, Run.sequence_eq]
    cases hrefuses : Run.refuses a.depths a.reader (a.session.countCall.register key).1 with
    | true => rfl
    | false =>
      have hpart : ∀ i a', Run.WalkCalls (Parser.steps rules n build accepts lookup parts) n
          ⟨a.depths.inc (a.session.countCall.register key).1, a.reader,
            (a.session.countCall.register key).2⟩ 0 [] i a' →
          ((Parser.pick lookup parts i).map f).map (fun p => p a'.depths a'.reader a'.session) =
            ((Parser.pick lookup parts i).map (Parser.run rules n)).map
              fun p => p a'.depths a'.reader a'.session := fun i a' hcalls => by
        rw [Option.map_map, Option.map_map]
        cases hi : Parser.pick lookup parts i with
        | none => rfl
        | some q => exact congrArg some (h _ (.sequence hrefuses hcalls hi))
      have hwalk := Run.walk_congr hpart
      simp only [Bool.false_eq_true, if_false]
      rw [hwalk]
      rfl
  | repetition b q =>
    exact Run.cycle_congr (a := ⟨a.depths, a.reader, a.session.countCall⟩) fun a' hcalls =>
      h _ (.repetition hcalls)
  | sentence q =>
    simp only [Parser.runWith, Run.sentence_eq]
    rw [show f q a.depths a.reader a.session.countCall = _ from h _ .sentence]
    rfl
  | orEmpty token q =>
    simp only [Parser.runWith, Run.orEmpty_eq]
    rw [show f q a.depths a.reader a.session = _ from h _ .orEmpty]
    rfl
  | rule handle =>
    simp only [Parser.runWith]
    cases hstate : rules.state handle.id with
    | defined q => exact h _ (.rule hstate)
    | undefined | dropped => rfl

end Curtail
