/-
# Choices within choices

A choice among whose alternatives is a choice is the choice among all of their
alternatives: the same alternatives are called in the same order, each in the
session that the one before left, the first match ends both, and what the
others report is joined in another grouping only. What differs is the number
of calls, which the inner choice adds to. So the two agree if no alternative
looks at that number; what else an alternative does with the session, and what
it answers, may be anything.

Key definitions: `Session.uncounted`, `Run.answer`, `Run.Uncounting`.
Key theorems: `Run.answer_choice_append`, `Run.choice_flatten`,
`Parser.run_choice_flatten`.
-/
import Curtail.Parse.Script
import Curtail.Proofs.Finding
import Curtail.Proofs.Sentences

namespace Curtail

/-- The session with its calls forgotten. -/
def Session.uncounted (s : Session) : Session := { s with memo := { s.memo with calls := 0 } }

@[simp] theorem Session.uncounted_uncounted (s : Session) : s.uncounted.uncounted = s.uncounted :=
  rfl

@[simp] theorem Session.uncounted_countCall (s : Session) :
    s.countCall.uncounted = s.uncounted := rfl

@[simp] theorem Session.uncounted_addCalls (s : Session) (k : Nat) :
    (s.addCalls k).uncounted = s.uncounted := rfl

namespace Run

/-- What a run answers and what session it leaves, but for the number of calls. -/
def answer (p : Run) (d : Tally) (r : Reader) (s : Session) : Option (Outcome × Session) :=
  (p d r s).map fun x => (x.1, x.2.uncounted)

/-- A run that does not look at the number of calls. -/
def Uncounting (p : Run) : Prop := ∀ d r s, p.answer d r s.uncounted = p.answer d r s

variable {p : Run} {ps before inner after : List Run} {d : Tally} {r : Reader} {s s' : Session}

theorem Uncounting.answer_eq (h : p.Uncounting) (hs : s.uncounted = s'.uncounted) :
    p.answer d r s = p.answer d r s' := by
  rw [← h d r s, hs, h d r s']

/-- What comes of an alternative: its match, or else what `rest` comes to after it. -/
def orTry (rest : Session → Option (Outcome × Session)) (x : Outcome × Session) :
    Option (Outcome × Session) :=
  if x.1.isMatch then some x else (rest x.2).map fun y => (x.1 ++ y.1, y.2)

variable {f : Session → Option (Outcome × Session)} {out : Outcome}

theorem orTry_of_match (h : out.isMatch = true) : orTry f (out, s) = some (out, s) := if_pos h

theorem orTry_of_no_match (h : out.isMatch = false) :
    orTry f (out, s) = (f s).map fun y => (out ++ y.1, y.2) := if_neg (ne_true_of_eq_false h)

theorem isMatch_append {a b : Outcome} (h : a.isMatch = false) : (a ++ b).isMatch = b.isMatch := by
  have hnone : a.results = ∅ := Ascending.ext (Outcome.items_eq_nil h)
  rw [Outcome.isMatch, Outcome.append_def, hnone, Ascending.empty_append, Outcome.isMatch]

/-- Alternatives may be tried in any grouping. -/
theorem orTry_assoc (f g : Session → Option (Outcome × Session)) (x : Outcome × Session) :
    (orTry f x).bind (orTry g) = orTry (fun s => (f s).bind (orTry g)) x := by
  obtain ⟨out, s⟩ := x
  cases hout : out.isMatch with
  | true =>
    rw [orTry_of_match hout, orTry_of_match hout, Option.bind_some, orTry_of_match hout]
  | false =>
    rw [orTry_of_no_match hout, orTry_of_no_match hout]
    cases f s with
    | none => rfl
    | some y =>
      obtain ⟨next, t⟩ := y
      have hjoined : (out ++ next).isMatch = next.isMatch := isMatch_append hout
      rw [Option.map_some, Option.bind_some, Option.bind_some]
      cases hnext : next.isMatch with
      | true => rw [orTry_of_match hnext, orTry_of_match (hjoined.trans hnext), Option.map_some]
      | false =>
        rw [orTry_of_no_match hnext, orTry_of_no_match (hjoined.trans hnext), Option.map_map]
        simp only [Function.comp_def, Outcome.append_assoc]

/-! ### Choices but for the number of calls -/

theorem answer_choice_nil : answer (choice []) d r s = some (∅, s.uncounted) := rfl

theorem answer_choice_cons (hp : p.Uncounting) (hps : (choice ps).Uncounting) :
    answer (choice (p :: ps)) d r s = (p.answer d r s).bind (orTry (answer (choice ps) d r)) := by
  have hcall : p.answer d r s.countCall = p.answer d r s := hp.answer_eq s.uncounted_countCall
  rw [← hcall, answer, answer, choice_cons]
  rcases p d r s.countCall with _ | ⟨out, t⟩
  · rfl
  · rw [Option.bind_some, Option.map_some, Option.bind_some]
    cases hout : out.isMatch with
    | true => rw [orTry_of_match hout, if_pos rfl, Option.map_some]
    | false =>
      rw [orTry_of_no_match hout, if_neg Bool.false_ne_true, hps d r t, answer, Option.map_map,
        Option.map_map]
      rfl

/-- A choice only counts on the calls that it makes. -/
theorem uncounting_choice (h : ∀ p ∈ ps, p.Uncounting) : (choice ps).Uncounting := by
  induction ps with
  | nil => exact fun _ _ _ => rfl
  | cons p ps ih =>
    obtain ⟨hp, hps⟩ := List.forall_mem_cons.mp h
    intro d r s
    rw [answer_choice_cons hp (ih hps), answer_choice_cons hp (ih hps), hp d r s]

/-- Some alternatives and then others: the others are tried if none of the first matches. -/
theorem answer_choice_append (hps : ∀ p ∈ ps, p.Uncounting) (hafter : ∀ p ∈ after, p.Uncounting) :
    answer (choice (ps ++ after)) d r s =
      (answer (choice ps) d r s).bind (orTry (answer (choice after) d r)) := by
  induction ps generalizing s with
  | nil =>
    have hempty : (∅ : Outcome).isMatch = false := rfl
    rw [List.nil_append, answer_choice_nil, Option.bind_some, orTry_of_no_match hempty,
      uncounting_choice hafter d r s]
    exact Option.map_id'.symm
  | cons p ps ih =>
    obtain ⟨hp, hrest⟩ := List.forall_mem_cons.mp hps
    have hall : (choice (ps ++ after)).Uncounting := uncounting_choice fun q hq =>
      (List.mem_append.mp hq).elim (hrest q) (hafter q)
    have htail : answer (choice (ps ++ after)) d r =
        fun s => (answer (choice ps) d r s).bind (orTry (answer (choice after) d r)) :=
      funext fun _ => ih hrest
    rw [List.cons_append, answer_choice_cons hp hall, htail,
      answer_choice_cons hp (uncounting_choice hrest), Option.bind_assoc]
    simp only [orTry_assoc]

theorem answer_choice_singleton (hp : p.Uncounting) :
    answer (choice [p]) d r s = p.answer d r s := by
  have hnil : (choice []).Uncounting := fun _ _ _ => rfl
  rw [answer_choice_cons hp hnil, answer]
  rcases p d r s with _ | ⟨out, t⟩
  · rfl
  · rw [Option.map_some, Option.bind_some]
    cases hout : out.isMatch with
    | true => rw [orTry_of_match hout]
    | false =>
      rw [orTry_of_no_match hout, answer_choice_nil, Option.map_some, Outcome.append_empty,
        Session.uncounted_uncounted]

/-- The alternatives of a choice may stand in its place. -/
theorem answer_choice_nested (hbefore : ∀ p ∈ before, p.Uncounting)
    (hinner : ∀ p ∈ inner, p.Uncounting) (hafter : ∀ p ∈ after, p.Uncounting) :
    answer (choice (before ++ choice inner :: after)) d r s =
      answer (choice (before ++ (inner ++ after))) d r s := by
  have hchoice := uncounting_choice hinner
  have htail : ∀ p ∈ choice inner :: after, p.Uncounting :=
    List.forall_mem_cons.mpr ⟨hchoice, hafter⟩
  have hflat : ∀ p ∈ inner ++ after, p.Uncounting := fun p hp =>
    (List.mem_append.mp hp).elim (hinner p) (hafter p)
  have hsame : answer (choice (choice inner :: after)) d r = answer (choice (inner ++ after)) d r := by
    funext s
    rw [answer_choice_cons hchoice (uncounting_choice hafter), answer_choice_append hinner hafter]
  rw [answer_choice_append hbefore htail, answer_choice_append hbefore hflat, hsame]

/-- **Nested choices can be flattened**: whatever the alternatives do with the session, as long as
they do not look at its number of calls, the choice with the inner choice and the one with the inner
alternatives in its place answer the same and leave the same session but for that number, also from
sessions that differ in it. A choice of one alternative is that alternative. -/
theorem choice_flatten (h : ∀ p ∈ before ++ inner ++ after, p.Uncounting)
    (hs : s.uncounted = s'.uncounted) :
    answer (choice (before ++ [choice inner] ++ after)) d r s =
        answer (choice (before ++ inner ++ after)) d r s' ∧
      ∀ p : Run, p.Uncounting → answer (choice [p]) d r s = answer p d r s' := by
  have hbefore : ∀ p ∈ before, p.Uncounting := fun p hp => h p (by simp [hp])
  have hinner : ∀ p ∈ inner, p.Uncounting := fun p hp => h p (by simp [hp])
  have hafter : ∀ p ∈ after, p.Uncounting := fun p hp => h p (by simp [hp])
  refine ⟨?_, fun p hp => ?_⟩
  · rw [List.append_assoc, List.singleton_append, answer_choice_nested hbefore hinner hafter,
      ← List.append_assoc]
    exact (uncounting_choice h).answer_eq hs
  · rw [answer_choice_singleton hp]
    exact hp.answer_eq hs

/-- A leaf that fails, one that refuses, and one that matches, each counting its own calls. -/
theorem choice_flatten_scripts :
    let script (number : Nat) (answer : Answer) : Run :=
      Parser.run .empty 1 (.leaf (Script.mk number "script" [answer] false).leaf)
    let failing := script 0 ⟨[], some (.trailing ⟨1, 1, 2⟩), []⟩
    let refusing := script 1 ⟨[], none, [7]⟩
    let matching := script 2 ⟨[(⟨1, 1, 2⟩, none)], none, []⟩
    (∀ p ∈ [failing] ++ [refusing, matching] ++ [failing], p.Uncounting) ∧
    answer (choice ([failing] ++ [choice [refusing, matching]] ++ [failing])) .zero
        (.ofText "a" true) .fresh =
      answer (choice ([failing] ++ [refusing, matching] ++ [failing])) .zero (.ofText "a" true)
        .fresh := by
  intro script failing refusing matching
  have hscript : ∀ number answer, (script number answer).Uncounting := fun _ _ _ _ _ => rfl
  have hall : ∀ p ∈ [failing] ++ [refusing, matching] ++ [failing], p.Uncounting := by
    simp [failing, refusing, matching, hscript]
  exact ⟨hall, (choice_flatten hall rfl).1⟩

end Run

/-! ### Choices of grammars -/

namespace Run

theorem Below.answer {p q : Run} (h : Below p q) {d : Tally} {r : Reader} {s : Session}
    {x : Outcome × Session} (hp : p.answer d r s = some x) : q.answer d r s = some x := by
  obtain ⟨y, hy, rfl⟩ := Option.map_eq_some_iff.mp hp
  exact Option.map_eq_some_iff.mpr ⟨y, h _ _ _ _ hy, rfl⟩

end Run

namespace Parser

variable {rules : Rules} {P : Parser → Prop} {before inner after : List Parser}

/-- No parser over pure leaves looks at the number of calls. -/
theorem uncounting_of_closed (hP : rules.Closed P) (hpure : ∀ {l}, P (.leaf l) → ∃ f, l.Pure f)
    {p : Parser} (hp : P p) (n : Nat) : (p.run rules n).Uncounting := by
  have hstep : ∀ k k' {d r x} {s : Session}, (p.run rules n).answer d r (s.addCalls k) = some x →
      (p.run rules n).answer d r (s.addCalls k') = some x := by
    intro k k' d r x s h
    obtain ⟨⟨out, t⟩, ht, rfl⟩ := Option.map_eq_some_iff.mp h
    obtain ⟨out', _, ht', hafter⟩ := Lockstep.apart_follows k k' hP hpure n hp trivial rfl
      ⟨s, rfl, rfl⟩ ht
    obtain ⟨u, rfl, rfl⟩ := hafter.sessions
    obtain rfl := hafter.outcomes.eq hafter.outcomes.cuts
    exact Option.map_eq_some_iff.mpr ⟨_, ht', rfl⟩
  intro d r s
  have hs : s = s.uncounted.addCalls s.memo.calls := by simp [Session.addCalls, Session.uncounted]
  generalize hcalls : s.memo.calls = k at hs
  rw [hs, Session.uncounted_addCalls, Session.uncounted_uncounted]
  exact Option.ext fun x => ⟨fun h => hstep 0 k h, fun h => hstep k 0 h⟩

/-- **A nested choice of a grammar parses as the flat one**, if no alternative looks at the number of
calls, as none over pure leaves does: with whatever fuel is enough, the same outcome, and the same
session but for that number. -/
theorem run_choice_flatten (name name' name'' : String)
    (h : ∀ p ∈ before ++ inner ++ after, ∀ n, (p.run rules n).Uncounting)
    {d : Tally} {r : Reader} {s : Session} {x : Outcome × Session} :
    (∃ n, ((choice name (before ++ choice name' inner :: after)).run rules n).answer d r s =
        some x) ↔
      ∃ n, ((choice name'' (before ++ (inner ++ after))).run rules n).answer d r s = some x := by
  let grouped (n : Nat) : Run := Run.choice (before.map (run rules n) ++
    Run.choice (inner.map (run rules n)) :: after.map (run rules n))
  have hgrouped : ∀ n, (grouped n).answer d r s =
      ((choice name'' (before ++ (inner ++ after))).run rules (n + 1)).answer d r s := by
    have hall : ∀ n, ∀ ps ⊆ before ++ inner ++ after, ∀ p ∈ ps.map (run rules n), p.Uncounting := by
      intro n ps hps p hp
      obtain ⟨q, hq, rfl⟩ := List.mem_map.mp hp
      exact h q (hps hq) n
    intro n
    rw [run_choice, List.map_append, List.map_append]
    exact Run.answer_choice_nested (hall n before (by simp)) (hall n inner (by simp))
      (hall n after (by simp))
  have hlists : ∀ {n n'}, n ≤ n' → ∀ ps : List Parser,
      List.Forall₂ Run.Below (ps.map (run rules n)) (ps.map (run rules n')) := fun hn ps => by
    rw [List.forall₂_map_left_iff, List.forall₂_map_right_iff]
    exact List.forall₂_same.mpr fun p _ _ _ _ _ => run_mono hn
  have hlower : ∀ n, Run.Below
      ((choice name (before ++ choice name' inner :: after)).run rules (n + 1)) (grouped n) := by
    intro n
    rw [run_choice, List.map_append, List.map_cons]
    exact Run.choice_below (List.rel_append (hlists le_rfl before)
      (.cons (fun _ _ _ _ => run_mono n.le_succ) (hlists le_rfl after)))
  have hupper : ∀ n, Run.Below (grouped n)
      ((choice name (before ++ choice name' inner :: after)).run rules (n + 2)) := by
    intro n
    rw [run_choice, List.map_append, List.map_cons]
    exact Run.choice_below (List.rel_append (hlists n.le_succ before)
      (.cons (fun _ _ _ _ h => h) (hlists n.le_succ after)))
  constructor
  · rintro ⟨n, hn⟩
    cases n with
    | zero => cases hn
    | succ n => exact ⟨n + 1, hgrouped n ▸ (hlower n).answer hn⟩
  · rintro ⟨n, hn⟩
    cases n with
    | zero => cases hn
    | succ n => exact ⟨n + 2, (hupper n).answer (hgrouped n ▸ hn)⟩

end Parser
end Curtail
