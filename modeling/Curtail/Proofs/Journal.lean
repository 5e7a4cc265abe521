/-
# Refusals in the journal

A sequence that refuses to recurse says so twice: in the outcome of its call,
where identities are united on the way up, and in the journal, where one event
follows another. The two agree: what is noted during a call are the refusals
that it reports, in the same order, and nothing else. So the event that closes
a parse names the sequences whose refusals stand before it, each once.

Leaves may report identities in the name of sequences, and may note what they
like. What is said here is said of leaves that note the refusals they report.

Key definitions: `Session.Notes`, `Leaf.Notes`, `Run.Notes`.
Key theorems: `Parser.run_notes`, `Grammar.parse_notes`.
-/
import Curtail.Proofs.Reading
import Curtail.Proofs.Reports
import Curtail.Proofs.Yields

namespace Curtail

/-- The identity that an event says was refused. -/
def Event.refused? : Event → Option Nat
  | refusal id _ _ => some id
  | _ => none

/-! ### What is noted -/

/-- Between the two sessions refusals of these identities were noted, in order, and nothing else. -/
def Session.Notes (s s' : Session) (ids : List Nat) : Prop :=
  ∃ events, s'.events = s.events ++ events ∧ events.map Event.refused? = ids.map some

namespace Session

variable {s s₁ s' : Session} {ids ids' : List Nat}

theorem notes_of_journal (h : s'.journal = s.journal) : s.Notes s' [] :=
  ⟨[], by rw [events, events, h, List.append_nil], rfl⟩

theorem Notes.trans (h : s.Notes s₁ ids) (h' : s₁.Notes s' ids') : s.Notes s' (ids ++ ids') := by
  obtain ⟨new, hnew, hids⟩ := h
  obtain ⟨new', hnew', hids'⟩ := h'
  exact ⟨new ++ new', by rw [hnew', hnew, List.append_assoc],
    by rw [List.map_append, List.map_append, hids, hids']⟩

theorem Notes.of_countCall (h : s.countCall.Notes s' ids) : s.Notes s' ids := h

theorem Notes.of_register {key : Key} (h : (s.register key).2.Notes s' ids) : s.Notes s' ids := h

theorem Notes.grow (h : s.Notes s' ids) (id offset : Nat) (found : Matches) :
    s.Notes (s'.grow id offset found).2 ids := h

theorem notes_note (s : Session) (id : Nat) (name : String) (place : Position) :
    s.Notes (s.note (.refusal id name place)) [id] :=
  ⟨[.refusal id name place], by rw [events, events, note, List.reverse_cons], rfl⟩

end Session

namespace Report

/-- The identities among some reports. -/
def refusals (reports : List Report) : List Nat :=
  reports.filterMap fun
    | fault _ => none
    | refusal id => some id

theorem refusals_append (xs ys : List Report) : refusals (xs ++ ys) = refusals xs ++ refusals ys :=
  List.filterMap_append

theorem mem_refusals {xs : List Report} {id : Nat} : id ∈ refusals xs ↔ refusal id ∈ xs := by
  rw [refusals, List.mem_filterMap]
  constructor
  · rintro ⟨x, hx, hid⟩
    cases x with
    | fault f => cases hid
    | refusal id' =>
      cases hid
      exact hx
  · exact fun h => ⟨_, h, rfl⟩

theorem refusals_ofOutcome (out : Outcome) : refusals (ofOutcome out) = out.curtailed.ids := by
  have hfault : refusals (out.fault.toList.map fault) = [] := by
    cases out.fault <;> rfl
  rw [ofOutcome, refusals_append, hfault, List.nil_append, refusals, List.filterMap_map]
  exact List.filterMap_some

end Report

/-! ### Combinators -/

namespace Run

/-- What is noted during a call are the refusals that it reports. -/
def Notes (p : Run) (reports : Account) : Prop :=
  ∀ ⦃d r s out s'⦄, p d r s = some (out, s') → s.Notes s' (Report.refusals (reports d r s))

theorem gather_notes {f : Match → Session → Option (Outcome × Session)}
    {reports : Match → Session → List Report} :
    ∀ {ms : List Match}, (∀ m ∈ ms, ∀ ⦃s out s'⦄, f m s = some (out, s') →
      s.Notes s' (Report.refusals (reports m s))) →
      ∀ {s out s'}, gather f ms s = some (out, s') →
        s.Notes s' (Report.refusals (gatherReports f reports ms s))
  | [], _, s, _, _, h => by
    cases h
    exact Session.notes_of_journal rfl
  | m :: ms, hf, s, out, s', h => by
    obtain ⟨a, s₁, b, s₂, ha, hb, heq⟩ := gather_cons_eq_some.mp h
    cases heq
    have htail := gather_notes (fun m' hm' => hf m' (List.mem_cons_of_mem m hm')) hb
    simp only [gatherReports, ha]
    rw [Report.refusals_append]
    exact (hf m List.mem_cons_self ha).trans htail

theorem choice_notes {α : Type} {run : α → Run} {reports : α → Account} :
    ∀ {as : List α}, (∀ a ∈ as, Notes (run a) (reports a)) →
      Notes (choice (as.map run)) (choiceReports (as.map fun a => (run a, reports a)))
  | [], _, _, _, _, _, _, h => by
    cases h
    exact Session.notes_of_journal rfl
  | a :: as, hall, d, r, s, out, s', h => by
    obtain ⟨x, s₁, hx, hrest⟩ := choice_cons_eq_some.mp h
    have hhead := (hall a List.mem_cons_self hx).of_countCall
    simp only [List.map_cons, choiceReports, hx]
    rcases hrest with ⟨hm, heq⟩ | ⟨hm, y, s₂, hy, heq⟩
    · cases heq
      rw [if_pos hm, List.append_nil]
      exact hhead
    · cases heq
      have htail := choice_notes (fun b hb => hall b (List.mem_cons_of_mem a hb)) hy
      rw [if_neg (by simp [hm]), Report.refusals_append]
      exact hhead.trans htail

section Walks

variable {steps : Steps} {reports : Nat → Account}

theorem refusals_expectation (r : Reader) (k : Nat) (out : Outcome) (xs : List Report) :
    Report.refusals (steps.expectation r k out xs) = [] := by
  unfold Steps.expectation
  split <;> rfl

theorem walk_notes (hpart : ∀ i p, steps.part i = some p → Notes p (reports i)) :
    ∀ {n : Nat} {d : Tally} {r : Reader} {k : Nat} {nodes : List Node} {s : Session}
      {out : Outcome} {s' : Session}, walk steps n d r k nodes s = some (out, s') →
      s.Notes s' (Report.refusals (walkReports steps reports n d r k nodes s))
  | 0, _, _, _, _, _, _, _, h => by cases h
  | n + 1, d, r, k, nodes, s, out, s', h => by
    rcases walk_succ_eq_some.mp h with ⟨hk, heq⟩ | ⟨p, a, s₁, rest, s₂, hk, hp, hg, heq⟩
    · cases heq
      simp only [walkReports, hk]
      exact Session.notes_of_journal rfl
    · cases heq
      have hown := hpart k p hk hp
      have hrest : s₁.Notes s' (Report.refusals (gatherReports (walkOn steps n d r k nodes)
          (fun m s => walkReports steps reports n (depthsAfter d r m.reader) m.reader (k + 1)
            (m.node.toList ++ nodes) s) a.results.items s₁)) :=
        gather_notes (fun m _ _ _ _ hx => walk_notes hpart hx) hg
      simp only [walkReports, hk, hp]
      rw [Report.refusals_append, Report.refusals_append, refusals_expectation, List.append_nil]
      exact hown.trans hrest

theorem sequence_notes {n : Nat} {key : Key} {name : String}
    (hpart : ∀ i p, steps.part i = some p → Notes p (reports i)) :
    Notes (sequence n key name steps) (sequenceReports n key steps reports) := by
  intro d r s out s' h
  unfold sequenceReports
  rcases sequence_eq_some.mp h with ⟨hrefused, heq⟩ | ⟨hentered, a, s₁, hw, heq⟩
  · cases heq
    simp only [hrefused, if_true]
    exact (Session.notes_note _ _ _ _).of_register.of_countCall
  · cases heq
    simp only [hentered, Bool.false_eq_true, if_false]
    exact ((walk_notes hpart hw).of_register.of_countCall).grow _ _ _

end Walks

section Cycles

variable {b : Bounds} {p : Run} {reports : Account}

theorem cycle_notes (hp : Notes p reports) :
    ∀ {n : Nat} {d : Tally} {r : Reader} {nodes : List Node} {count : Nat} {stalled : Bool}
      {s : Session} {out : Outcome} {s' : Session},
      cycle b p n d r nodes count stalled s = some (out, s') →
      s.Notes s' (Report.refusals (cycleReports b p reports n d r nodes count stalled s))
  | 0, _, _, _, _, _, _, _, _, h => by cases h
  | n + 1, d, r, nodes, count, stalled, s, out, s', h => by
    rcases cycle_succ_eq_some.mp h with
      ⟨hb, heq⟩ | ⟨hb, a, s₁, ha, ⟨hm, heq⟩ | ⟨-, rest, s₂, hg, heq⟩⟩
    · cases heq
      simp only [cycleReports, hb, if_true]
      exact Session.notes_of_journal rfl
    · cases heq
      have hnone : a.results.items = [] := by
        simpa [Outcome.isMatch, Ascending.isEmpty] using hm
      simp only [cycleReports, hb, ha, hnone, gatherReports, Bool.false_eq_true, if_false,
        List.append_nil]
      exact hp ha
    · cases heq
      simp only [cycleReports, hb, ha, Bool.false_eq_true, if_false]
      rw [Report.refusals_append]
      refine (hp ha).trans (gather_notes (fun m _ s out s' hx => ?_) hg)
      unfold cycleOn at hx
      split
      · rename_i hlt
        rw [if_pos hlt] at hx
        exact cycle_notes hp hx
      · rename_i hlt
        rw [if_neg hlt] at hx
        split
        · rename_i hst
          rw [if_pos hst] at hx
          cases hx
          exact Session.notes_of_journal rfl
        · rename_i hst
          rw [if_neg hst] at hx
          exact cycle_notes hp hx

end Cycles

theorem refusals_trailingReport (out : Outcome) : Report.refusals (trailingReport out) = [] := by
  unfold trailingReport
  split
  · cases trailing? out.results <;> rfl
  · rfl

theorem sentence_notes {p : Run} {reports : Account} (hp : Notes p reports) :
    Notes (sentence p) (sentenceReports p reports) := by
  intro d r s out s' h
  obtain ⟨a, s₁, ha, heq⟩ := sentence_eq_some.mp h
  cases heq
  simp only [sentenceReports, ha]
  rw [Report.refusals_append, refusals_trailingReport, List.nil_append]
  exact (hp ha).of_countCall

theorem orEmpty_notes {token : String} {p : Run} {reports : Account} (hp : Notes p reports) :
    Notes (orEmpty token p) reports := by
  intro d r s out s' h
  obtain ⟨a, s₁, ha, heq⟩ := orEmpty_eq_some.mp h
  cases heq
  exact hp ha

end Run

/-! ### Parsers -/

/-- The leaf notes the refusals that it reports, and nothing else. -/
def Leaf.Notes (l : Leaf) : Prop :=
  ∀ d r (s : Session), s.Notes (l.answer d r s).2 (l.answer d r s).1.curtailed.ids

/-- What is noted during a call are the refusals that it reports, in order. -/
theorem Parser.run_notes {rules : Rules} {P : Parser → Prop} (hclosed : rules.Closed P)
    (hleaf : ∀ l, P (.leaf l) → l.Notes) (n : Nat) :
    ∀ {p : Parser}, P p → Run.Notes (run rules n p) (reports rules n p) := by
  induction n with
  | zero => intro p _ d r s out s' h; cases h
  | succ n ih =>
    intro p hp
    cases p with
    | terminal t =>
      intro d r s out s' h
      cases h
      simp only [reports]
      rw [Report.refusals_ofOutcome, t.curtailed_read]
      exact Session.notes_of_journal rfl
    | leaf l =>
      intro d r s out s' h
      have hnotes := (hleaf l hp d r s.countCall).of_countCall
      rw [run_leaf] at h
      simp only [Option.some.injEq] at h
      rw [h] at hnotes
      simp only [reports, h]
      rw [Report.refusals_ofOutcome]
      exact hnotes
    | choice name ps => exact Run.choice_notes fun q hq => ih (hclosed.part hp hq)
    | sequence key label build accepts lookup parts =>
      refine Run.sequence_notes fun i f hf => ?_
      obtain ⟨q, hq, rfl⟩ := Option.map_eq_some_iff.mp hf
      simp only [hq, Option.map_some, Option.getD_some]
      exact ih (hclosed.part hp (mem_of_pick hq))
    | repetition b q =>
      have hq := ih (hclosed.part hp (List.mem_singleton.mpr rfl))
      exact fun _ _ _ _ _ h => (Run.cycle_notes hq h).of_countCall
    | sentence q => exact Run.sentence_notes (ih (hclosed.part hp (List.mem_singleton.mpr rfl)))
    | orEmpty token q => exact Run.orEmpty_notes (ih (hclosed.part hp (List.mem_singleton.mpr rfl)))
    | rule h =>
      simp only [run_rule, reports]
      cases hstate : rules.state h.id with
      | defined q => exact ih (hclosed.rule hp hstate)
      | undefined =>
        intro d r s out s' hx
        cases hx
        exact Session.notes_of_journal rfl
      | dropped =>
        intro d r s out s' hx
        cases hx
        exact Session.notes_of_journal rfl

/-- The identities of an outcome are those reported during the call. -/
theorem Parser.run_ids {rules : Rules} {n : Nat} {p : Parser} {d : Tally} {r : Reader}
    {s s' : Session} {out : Outcome} (h : p.run rules n d r s = some (out, s')) :
    (∀ id, id ∈ out.curtailed.ids ↔ id ∈ Report.refusals (p.reports rules n d r s)) ∧
      (out.curtailed.isEmpty = true ↔ Report.refusals (p.reports rules n d r s) = []) := by
  rw [(run_besides h).2]
  refine ⟨fun id => ?_, ?_⟩
  · rw [Report.mem_refusals]
    exact Report.mem_curtailed_total
  · rw [Report.isEmpty_curtailed_total, List.eq_nil_iff_forall_not_mem]
    simp only [Report.mem_refusals]

namespace Grammar

variable {g : Grammar} {r : Reader} {s t : Session} {result : Except Fault Match}

/-- **The journal of a parse.** A parse notes that it starts, then every refusal, and closes with the
identities refused, each once and in ascending order; or without a word if nothing was refused. -/
theorem parse_notes (hleaf : ∀ l, Parser.leaf l ∈ g.members → l.Notes)
    (h : g.parse r s = some (result, t)) : ∃ events noted ids,
      t.events = s.events ++ .starting g.name r.cursor :: events ++
        (if noted = [] then [] else [.refusals ids]) ∧
      events.map Event.refused? = noted.map some ∧
      ids.Pairwise (· < ·) ∧ ∀ id, id ∈ ids ↔ id ∈ noted := by
  obtain ⟨⟨out, s'⟩, hcall, heq⟩ := Option.map_eq_some_iff.mp h
  cases heq
  obtain ⟨events, hevents, hnoted⟩ :=
    Parser.run_notes g.closed_members hleaf _ g.root_mem_members hcall
  obtain ⟨hids, hnone⟩ := Parser.run_ids hcall
  have hstart : (s.note (.starting g.name r.cursor)).forget.events =
      s.events ++ [.starting g.name r.cursor] := List.reverse_cons
  refine ⟨events, _, out.curtailed.ids, ?_, hnoted, out.curtailed.sorted, hids⟩
  unfold noteRefusals
  by_cases hquiet : out.curtailed.isEmpty = true
  · rw [if_pos hquiet, if_pos (hnone.mp hquiet), hevents, hstart]
    simp
  · rw [if_neg hquiet, if_neg fun hnil => hquiet (hnone.mpr hnil), Session.events, Session.note,
      List.reverse_cons]
    change s'.events ++ _ = _
    rw [hevents, hstart]
    simp

end Grammar

end Curtail
