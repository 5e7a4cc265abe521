/-
# What a call reports

Besides matches a call yields a fault and the identities that were refused.
Both are gathered from many places: the leaves report, sequences refuse or say
what was expected, sentences say where the text goes on. Here everything that
is reported during a call is listed in order, whatever becomes of the matches
on the way, and the outcome is what the list comes to: no report is lost, and
none is made up.

The list says nothing of how faults are joined. Whether a part is said to have
been expected is read off the list too: it is, if nothing was reported while
the part was tried.

Key definitions: `Report`, `Report.total`, `Parser.reports`, `Fault.Foremost`.
Key theorems: `Parser.run_besides`, `Parser.run_fault`, `Parser.run_curtailed`.
-/
import Curtail.Grammar.Draft
import Curtail.Proofs.Inversion

namespace Curtail

/-- What a call may report besides its matches. -/
inductive Report where
  | fault (f : Fault)
  /-- An identity that was refused, by the sequence itself or by a leaf in its name. -/
  | refusal (id : Nat)

/-! ### What a list of reports comes to -/

/-- The fault is in the list, none before it is further into the input, and those after it are less
far. -/
def Fault.Foremost (f : Fault) (faults : List Fault) : Prop :=
  ∃ before after, faults = before ++ f :: after ∧ (∀ g ∈ before, g.depth ≤ f.depth) ∧
    ∀ g ∈ after, g.depth < f.depth

theorem IdSet.mem_append {a b : IdSet} {id : Nat} :
    id ∈ (a ++ b).items ↔ id ∈ a.items ∨ id ∈ b.items :=
  Ascending.mem_append fun _ _ _ _ h => h

namespace Outcome

/-- An outcome without its matches. -/
def besides (out : Outcome) : Outcome := .reports out.fault out.curtailed

theorem besides_append (a b : Outcome) : (a ++ b).besides = a.besides ++ b.besides := rfl

end Outcome

namespace Report

/-- The faults among some reports. -/
def faults (reports : List Report) : List Fault :=
  reports.filterMap fun
    | fault f => some f
    | refusal _ => none

/-- A report as an outcome. -/
def outcome : Report → Outcome
  | fault f => .reports (some f) ∅
  | refusal id => .refused id

/-- What some reports come to. -/
def total : List Report → Outcome
  | [] => ∅
  | x :: xs => x.outcome ++ total xs

theorem total_append (xs ys : List Report) : total (xs ++ ys) = total xs ++ total ys := by
  induction xs with
  | nil => rfl
  | cons x xs ih => simp only [List.cons_append, total, ih, Outcome.append_assoc]

theorem results_total (xs : List Report) : (total xs).results = ∅ := by
  induction xs with
  | nil => rfl
  | cons x xs ih =>
    show x.outcome.results ++ (total xs).results = ∅
    rw [ih]
    cases x <;> rfl

theorem besides_total (xs : List Report) : (total xs).besides = total xs := by
  have h := results_total xs
  unfold Outcome.besides Outcome.reports
  rw [← h]

theorem mem_curtailed_total {xs : List Report} {id : Nat} :
    id ∈ (total xs).curtailed.items ↔ refusal id ∈ xs := by
  induction xs with
  | nil => exact ⟨nofun, nofun⟩
  | cons x xs ih =>
    show id ∈ (x.outcome.curtailed ++ (total xs).curtailed).items ↔ _
    rw [IdSet.mem_append, ih, List.mem_cons]
    cases x with
    | fault f => simp [outcome, Outcome.reports]
    | refusal id' => simp [outcome, Outcome.refused]

theorem contains_curtailed_total {xs : List Report} {id : Nat} :
    (total xs).curtailed.contains id = true ↔ refusal id ∈ xs := by
  rw [← mem_curtailed_total]
  simp [IdSet.contains, Ascending.hasKey]

theorem isEmpty_curtailed_total {xs : List Report} :
    (total xs).curtailed.isEmpty = true ↔ ∀ id, refusal id ∉ xs := by
  simp only [← mem_curtailed_total, Ascending.isEmpty, List.isEmpty_iff,
    List.eq_nil_iff_forall_not_mem]

theorem fault_total_cons (x : Report) (xs : List Report) :
    (total (x :: xs)).fault = Fault.furthest x.outcome.fault (total xs).fault := rfl

theorem fault_total_eq_none {xs : List Report} : (total xs).fault = none ↔ faults xs = [] := by
  induction xs with
  | nil => exact ⟨fun _ => rfl, fun _ => rfl⟩
  | cons x xs ih =>
    rw [fault_total_cons]
    cases x with
    | refusal id => exact ih
    | fault f =>
      show Fault.furthest (some f) _ = none ↔ f :: faults xs = []
      cases (total xs).fault with
      | none => simp
      | some g => simp only [Fault.furthest]; split <;> simp

end Report

theorem Fault.foremost_cons {f g : Fault} {faults : List Fault} : g.Foremost (f :: faults) ↔
    (g = f ∧ ∀ h ∈ faults, h.depth < f.depth) ∨ (f.depth ≤ g.depth ∧ g.Foremost faults) := by
  constructor
  · rintro ⟨before, after, hsplit, hbefore, hafter⟩
    cases before with
    | nil =>
      obtain ⟨rfl, rfl⟩ := List.cons.inj hsplit
      exact .inl ⟨rfl, hafter⟩
    | cons first before =>
      obtain ⟨rfl, htail⟩ := List.cons.inj hsplit
      exact .inr ⟨hbefore f List.mem_cons_self, before, after, htail,
        fun h hh => hbefore h (List.mem_cons_of_mem f hh), hafter⟩
  · rintro (⟨rfl, hafter⟩ | ⟨hle, before, after, rfl, hbefore, hafter⟩)
    · exact ⟨[], faults, rfl, nofun, hafter⟩
    · exact ⟨f :: before, after, rfl, List.forall_mem_cons.mpr ⟨hle, hbefore⟩, hafter⟩

theorem Fault.Foremost.mem {f : Fault} {faults : List Fault} (h : f.Foremost faults) :
    f ∈ faults := by
  obtain ⟨before, after, rfl, -⟩ := h
  exact List.mem_append_right before List.mem_cons_self

/-- Nothing in the list is further into the input than the foremost fault. -/
theorem Fault.Foremost.depth_le {f g : Fault} {faults : List Fault} (h : f.Foremost faults)
    (hg : g ∈ faults) : g.depth ≤ f.depth := by
  obtain ⟨before, after, rfl, hbefore, hafter⟩ := h
  rcases List.mem_append.mp hg with hg | hg
  · exact hbefore g hg
  · rcases List.mem_cons.mp hg with rfl | hg
    · exact Nat.le_refl _
    · exact Nat.le_of_lt (hafter g hg)

namespace Report

/-- Reports come to the foremost of their faults. -/
theorem fault_total_eq_some {xs : List Report} {f : Fault} :
    (total xs).fault = some f ↔ f.Foremost (faults xs) := by
  induction xs generalizing f with
  | nil => exact ⟨nofun, fun ⟨before, _, h, _⟩ => by cases before <;> cases h⟩
  | cons x xs ih =>
    rw [fault_total_cons]
    cases x with
    | refusal id => exact ih
    | fault g =>
      show Fault.furthest (some g) _ = some f ↔ f.Foremost (g :: faults xs)
      rw [Fault.foremost_cons]
      cases hrest : (total xs).fault with
      | none =>
        rw [fault_total_eq_none.mp hrest]
        have hempty : ¬ f.Foremost [] := fun ⟨before, _, h, _⟩ => by cases before <;> cases h
        simp [hempty, eq_comm]
      | some h =>
        have hforemost : h.Foremost (faults xs) := ih.mp hrest
        rw [← ih, hrest, Option.some.injEq, Fault.furthest]
        split
        · rename_i hle
          constructor
          · intro heq
            obtain rfl := Option.some.inj heq
            exact .inr ⟨hle, rfl⟩
          · rintro (⟨rfl, hlt⟩ | ⟨-, rfl⟩)
            · exact absurd (hlt h hforemost.mem) (Nat.not_lt.mpr hle)
            · rfl
        · rename_i hgt
          constructor
          · intro heq
            obtain rfl := Option.some.inj heq
            exact .inl ⟨rfl, fun k hk => Nat.lt_of_le_of_lt (hforemost.depth_le hk) (by omega)⟩
          · rintro (⟨rfl, -⟩ | ⟨hle, rfl⟩)
            · rfl
            · exact absurd hle hgt

/-- A list comes to nothing only if it is empty. -/
theorem total_eq_empty {xs : List Report} (hfault : (total xs).fault = none)
    (hcurtailed : (total xs).curtailed.isEmpty = true) : xs = [] := by
  cases xs with
  | nil => rfl
  | cons x xs =>
    cases x with
    | fault f => exact absurd (fault_total_eq_none.mp hfault) (List.cons_ne_nil f _)
    | refusal id =>
      exact absurd List.mem_cons_self (isEmpty_curtailed_total.mp hcurtailed id)

/-- What an outcome reports, the fault first. -/
def ofOutcome (out : Outcome) : List Report :=
  out.fault.toList.map fault ++ out.curtailed.ids.map refusal

theorem total_ofOutcome (out : Outcome) : total (ofOutcome out) = out.besides := by
  have hfault : total (out.fault.toList.map fault) = .reports out.fault ∅ := by
    cases out.fault <;> rfl
  have hrefusals : total (out.curtailed.ids.map refusal) = .reports none out.curtailed := by
    have hnone : (total (out.curtailed.ids.map refusal)).fault = none :=
      fault_total_eq_none.mpr (by simp [faults])
    have hids : (total (out.curtailed.ids.map refusal)).curtailed = out.curtailed := by
      refine Ascending.ext_mem fun id => ?_
      rw [mem_curtailed_total]
      simp [IdSet.ids]
    rw [← besides_total, Outcome.besides, hnone, hids]
  rw [ofOutcome, total_append, hfault, hrefusals]
  simp [Outcome.append_def, Outcome.reports, Outcome.besides]

end Report

/-! ### The reports of combinators

What a combinator reports is stated over the reports of its parts, with the runs of the parts to
tell which calls are made. -/

namespace Run

/-- The reports of a call, in the order in which they are made. -/
abbrev Account := Tally → Reader → Session → List Report

/-- What is reported while something is done for some matches in turn. -/
def gatherReports (f : Match → Session → Option (Outcome × Session))
    (reports : Match → Session → List Report) : List Match → Session → List Report
  | [], _ => []
  | m :: ms, s =>
    match f m s with
    | none => []
    | some (_, next) => reports m s ++ gatherReports f reports ms next

/-- The reports of a choice: those of the alternatives up to the first that matches. -/
def choiceReports : List (Run × Account) → Account
  | [], _, _, _ => []
  | (p, reports) :: ps, d, r, s =>
    match p d r s.countCall with
    | none => []
    | some (out, next) =>
      reports d r s.countCall ++ if out.isMatch then [] else choiceReports ps d r next

/-- That the part after `k` others was expected: the sequence cannot end before it, it does not
match, and nothing was reported while it was tried. -/
def Steps.expectation (steps : Steps) (r : Reader) (k : Nat) (out : Outcome)
    (reports : List Report) : List Report :=
  if 0 < k ∧ steps.accepts k = false ∧ out.isMatch = false ∧ reports = [] then
    [.fault (.expecting r.token.cursor (steps.name k))]
  else []

/-- The reports of a walk: those of the part, whether it was expected, and those of the walks that go
on from its matches. -/
def walkReports (steps : Steps) (reports : Nat → Account) :
    Nat → Tally → Reader → Nat → List Node → Session → List Report
  | 0, _, _, _, _, _ => []
  | fuel + 1, d, r, k, nodes, s =>
    match steps.part k with
    | none => []
    | some p =>
      match p d r s with
      | none => []
      | some (out, next) =>
        reports k d r s ++ steps.expectation r k out (reports k d r s) ++
          gatherReports (walkOn steps fuel d r k nodes)
            (fun m s => walkReports steps reports fuel (depthsAfter d r m.reader) m.reader (k + 1)
              (m.node.toList ++ nodes) s)
            out.results.items next

/-- The reports of a sequence: that it refuses, or those of its walk. -/
def sequenceReports (fuel : Nat) (key : Key) (steps : Steps) (reports : Nat → Account) : Account :=
  fun d r s =>
    let (id, s) := s.countCall.register key
    if refuses d r id then [.refusal id] else walkReports steps reports fuel (d.inc id) r 0 [] s

/-- The reports of a cycle: those of the part and of the cycles that go on from its matches. -/
def cycleReports (b : Bounds) (p : Run) (reports : Account) :
    Nat → Tally → Reader → List Node → Nat → Bool → Session → List Report
  | 0, _, _, _, _, _, _ => []
  | fuel + 1, d, r, nodes, count, stalled, s =>
    if b.full count then []
    else
      match p d r s with
      | none => []
      | some (out, next) =>
        reports d r s ++
          gatherReports (cycleOn b p fuel d r nodes count stalled)
            (fun m s =>
              let nodes := m.node.toList ++ nodes
              if r.cursor.offset < m.stopOffset then
                cycleReports b p reports fuel .zero m.reader nodes (count + 1) false s
              else if stalled then []
              else cycleReports b p reports fuel d m.reader nodes (count + 1) true s)
            out.results.items next

/-- That the text goes on after the longest match of a sentence, if no match reaches its end. -/
def trailingReport (out : Outcome) : List Report :=
  if (complete out.results).isEmpty then
    (trailing? out.results).toList.map fun place => .fault (.trailing place)
  else []

/-- The reports of a sentence; that the text goes on is reported before what its part reports. -/
def sentenceReports (p : Run) (reports : Account) : Account := fun d r s =>
  match p d r s.countCall with
  | none => []
  | some (out, _) => trailingReport out ++ reports d r s.countCall

/-- Whenever the run comes to an end, its reports come to its outcome, but for the matches. -/
def Accounts (p : Run) (reports : Account) : Prop :=
  ∀ ⦃d r s out s'⦄, p d r s = some (out, s') → Report.total (reports d r s) = out.besides

variable {d : Tally} {r : Reader} {s s' : Session} {out : Outcome}

theorem gather_accounts {f : Match → Session → Option (Outcome × Session)}
    {reports : Match → Session → List Report} :
    ∀ {ms : List Match}, (∀ m ∈ ms, ∀ ⦃s out s'⦄, f m s = some (out, s') →
      Report.total (reports m s) = out.besides) →
      ∀ {s out s'}, gather f ms s = some (out, s') →
        Report.total (gatherReports f reports ms s) = out.besides
  | [], _, _, _, _, h => by
    cases h
    rfl
  | m :: ms, hf, s, out, s', h => by
    obtain ⟨a, s₁, b, s₂, ha, hb, heq⟩ := gather_cons_eq_some.mp h
    cases heq
    have htail := gather_accounts (fun m' hm' => hf m' (List.mem_cons_of_mem m hm')) hb
    simp only [gatherReports, ha]
    rw [Report.total_append, hf m List.mem_cons_self ha, htail, Outcome.besides_append]

theorem choice_accounts {α : Type} {run : α → Run} {reports : α → Account} :
    ∀ {as : List α}, (∀ a ∈ as, Accounts (run a) (reports a)) →
      Accounts (choice (as.map run)) (choiceReports (as.map fun a => (run a, reports a)))
  | [], _, _, _, _, _, _, h => by
    cases h
    rfl
  | a :: as, hall, d, r, s, out, s', h => by
    obtain ⟨x, s₁, hx, hrest⟩ := choice_cons_eq_some.mp h
    have hhead := hall a List.mem_cons_self hx
    simp only [List.map_cons, choiceReports, hx]
    rcases hrest with ⟨hm, heq⟩ | ⟨hm, y, s₂, hy, heq⟩
    · cases heq
      rw [if_pos hm, List.append_nil, hhead]
    · cases heq
      have htail := choice_accounts (fun b hb => hall b (List.mem_cons_of_mem a hb)) hy
      rw [if_neg (by simp [hm]), Report.total_append, hhead, htail, Outcome.besides_append]

section Walks

variable {steps : Steps} {reports : Nat → Account}

theorem besides_finishIf (k : Nat) (nodes : List Node) :
    (steps.finishIf r k nodes).besides = ∅ := by
  unfold Steps.finishIf
  split <;> rfl

/-- The fault of a part is what is reported of it, with that it was expected. -/
theorem total_expectation {k : Nat} {xs : List Report} (h : Report.total xs = out.besides) :
    Report.total (xs ++ steps.expectation r k out xs) =
      .reports (steps.faultAt r k out) out.curtailed := by
  -- The sequence looks at the outcome of the part, the list at its reports.
  have hnil : xs = [] ↔ out.fault = none ∧ out.curtailed.isEmpty = true := by
    constructor
    · rintro rfl
      exact ⟨(congrArg Outcome.fault h).symm, congrArg (·.curtailed.isEmpty) h.symm⟩
    · rintro ⟨hfault, hcurtailed⟩
      refine Report.total_eq_empty ?_ ?_
      · rw [h]; exact hfault
      · rw [h]; exact hcurtailed
  unfold Steps.expectation
  split
  · rename_i hexpected
    obtain ⟨hk, haccepts, hm, rfl⟩ := hexpected
    obtain ⟨hfault, hcurtailed⟩ := hnil.mp rfl
    have hnone : out.curtailed = ∅ := (congrArg Outcome.curtailed h).symm
    have hat : steps.faultAt r k out = some (.expecting r.token.cursor (steps.name k)) := by
      simp [Steps.faultAt, hk, haccepts, hm, hfault, hcurtailed]
    rw [hat, hnone]
    rfl
  · rename_i hunexpected
    have hat : steps.faultAt r k out = out.fault := by
      unfold Steps.faultAt
      rw [if_neg]
      simp only [Bool.and_eq_true, Bool.not_eq_true', decide_eq_true_eq, Option.isNone_iff_eq_none]
      rintro ⟨⟨⟨⟨hk, haccepts⟩, hm⟩, hfault⟩, hcurtailed⟩
      exact hunexpected ⟨hk, haccepts, hm, hnil.mpr ⟨hfault, hcurtailed⟩⟩
    rw [List.append_nil, h, hat]
    rfl

theorem walk_accounts (hpart : ∀ i p, steps.part i = some p → Accounts p (reports i)) :
    ∀ {n : Nat} {d : Tally} {r : Reader} {k : Nat} {nodes : List Node} {s : Session}
      {out : Outcome} {s' : Session}, walk steps n d r k nodes s = some (out, s') →
      Report.total (walkReports steps reports n d r k nodes s) = out.besides
  | 0, _, _, _, _, _, _, _, h => by cases h
  | n + 1, d, r, k, nodes, s, out, s', h => by
    rcases walk_succ_eq_some.mp h with ⟨hk, heq⟩ | ⟨p, a, s₁, rest, s₂, hk, hp, hg, heq⟩
    · cases heq
      simp only [walkReports, hk]
      exact (besides_finishIf k nodes).symm
    · cases heq
      have hown := hpart k p hk hp
      have hrest : Report.total (gatherReports (walkOn steps n d r k nodes)
          (fun m s => walkReports steps reports n (depthsAfter d r m.reader) m.reader (k + 1)
            (m.node.toList ++ nodes) s) a.results.items s₁) = rest.besides :=
        gather_accounts (fun m _ _ _ _ hx => walk_accounts hpart hx) hg
      simp only [walkReports, hk, hp]
      rw [Report.total_append, total_expectation hown, hrest, Outcome.besides_append,
        Outcome.besides_append, besides_finishIf, Outcome.append_empty]
      rfl

theorem sequence_accounts {n : Nat} {key : Key} {name : String}
    (hpart : ∀ i p, steps.part i = some p → Accounts p (reports i)) :
    Accounts (sequence n key name steps) (sequenceReports n key steps reports) := by
  intro d r s out s' h
  unfold sequenceReports
  rcases sequence_eq_some.mp h with ⟨hrefused, heq⟩ | ⟨hentered, a, s₁, hw, heq⟩
  · cases heq
    simp only [hrefused, if_true]
    rfl
  · cases heq
    simp only [hentered, Bool.false_eq_true, if_false]
    have hwalk : Report.total (walkReports steps reports n _ r 0 [] _) = a.besides :=
      walk_accounts hpart hw
    exact hwalk

end Walks

section Cycles

variable {b : Bounds} {p : Run} {reports : Account}

theorem besides_finish (nodes : List Node) (count : Nat) :
    (b.finish r nodes count).besides = ∅ := by
  unfold Bounds.finish
  split <;> rfl

theorem cycle_accounts (hp : Accounts p reports) :
    ∀ {n : Nat} {d : Tally} {r : Reader} {nodes : List Node} {count : Nat} {stalled : Bool}
      {s : Session} {out : Outcome} {s' : Session},
      cycle b p n d r nodes count stalled s = some (out, s') →
      Report.total (cycleReports b p reports n d r nodes count stalled s) = out.besides
  | 0, _, _, _, _, _, _, _, _, h => by cases h
  | n + 1, d, r, nodes, count, stalled, s, out, s', h => by
    rcases cycle_succ_eq_some.mp h with
      ⟨hb, heq⟩ | ⟨hb, a, s₁, ha, ⟨hm, heq⟩ | ⟨-, rest, s₂, hg, heq⟩⟩
    · cases heq
      simp only [cycleReports, hb, if_true]
      exact (besides_finish nodes count).symm
    · cases heq
      have hnone : a.results.items = [] := by
        simpa [Outcome.isMatch, Ascending.isEmpty] using hm
      simp only [cycleReports, hb, ha, hnone, gatherReports, Bool.false_eq_true, if_false,
        List.append_nil]
      rw [hp ha, Outcome.besides_append, besides_finish, Outcome.append_empty]
      rfl
    · cases heq
      simp only [cycleReports, hb, ha, Bool.false_eq_true, if_false]
      rw [Report.total_append, hp ha, gather_accounts ?_ hg]
      · rfl
      · intro m _ s out s' hx
        unfold cycleOn at hx
        split
        · rename_i hlt
          rw [if_pos hlt] at hx
          exact cycle_accounts hp hx
        · rename_i hlt
          rw [if_neg hlt] at hx
          split
          · rename_i hst
            rw [if_pos hst] at hx
            cases hx
            exact (besides_finish _ _).symm
          · rename_i hst
            rw [if_neg hst] at hx
            exact cycle_accounts hp hx

end Cycles

theorem total_trailingReport (out : Outcome) :
    Report.total (trailingReport out) ++ out.besides = (atEnd out).besides := by
  change Report.total (trailingReport out) ++ .reports out.fault out.curtailed =
    .reports (atEnd out).fault out.curtailed
  cases hkept : (complete out.results).isEmpty with
  | false =>
    have hreport : trailingReport out = [] := by simp [trailingReport, hkept]
    have hfault : (atEnd out).fault = out.fault := by simp [atEnd, hkept]
    rw [hreport, hfault]
    rfl
  | true =>
    cases hplace : trailing? out.results with
    | none =>
      have hreport : trailingReport out = [] := by simp [trailingReport, hplace]
      have hfault : (atEnd out).fault = out.fault := by simp [atEnd, hplace]
      rw [hreport, hfault]
      rfl
    | some place =>
      have hreport : trailingReport out = [.fault (.trailing place)] := by
        simp [trailingReport, hkept, hplace]
      have hfault : (atEnd out).fault = Fault.furthest (some (.trailing place)) out.fault := by
        simp [atEnd, hkept, hplace]
      rw [hreport, hfault]
      rfl

theorem sentence_accounts {p : Run} {reports : Account} (hp : Accounts p reports) :
    Accounts (sentence p) (sentenceReports p reports) := by
  intro d r s out s' h
  obtain ⟨a, s₁, ha, heq⟩ := sentence_eq_some.mp h
  cases heq
  simp only [sentenceReports, ha]
  rw [Report.total_append, hp ha, total_trailingReport]

theorem orEmpty_accounts {token : String} {p : Run} {reports : Account} (hp : Accounts p reports) :
    Accounts (orEmpty token p) reports := by
  intro d r s out s' h
  obtain ⟨a, s₁, ha, heq⟩ := orEmpty_eq_some.mp h
  cases heq
  rw [hp ha]
  unfold withEmpty
  split <;> rfl

end Run

/-! ### The reports of parsers -/

namespace Parser

/-- What is reported during a call of a parser, in order. -/
def reports (rules : Rules) : Nat → Parser → Run.Account
  | 0, _ => fun _ _ _ => []
  | fuel + 1, p =>
    match p with
    | terminal t => fun _ r _ => Report.ofOutcome (t.read r)
    | leaf l => fun d r s => Report.ofOutcome (l.answer d r s.countCall).1
    | choice _ ps => Run.choiceReports (ps.map fun q => (run rules fuel q, reports rules fuel q))
    | sequence key _ build accepts lookup parts =>
      Run.sequenceReports fuel key (steps rules fuel build accepts lookup parts) fun i =>
        ((pick lookup parts i).map (reports rules fuel)).getD fun _ _ _ => []
    | repetition b q => fun d r s =>
      Run.cycleReports b (run rules fuel q) (reports rules fuel q) fuel d r [] 0 false s.countCall
    | sentence q => Run.sentenceReports (run rules fuel q) (reports rules fuel q)
    | orEmpty _ q => reports rules fuel q
    | rule h =>
      match rules.state h.id with
      | .defined q => reports rules fuel q
      | .undefined => fun _ _ _ => [.fault (.grammar (.undefined h.name))]
      | .dropped => fun _ _ _ => [.fault (.grammar (.dropped h.name))]

/-- Whatever a parser reports comes to its outcome, but for the matches. -/
theorem run_accounts (rules : Rules) (n : Nat) :
    ∀ p : Parser, Run.Accounts (run rules n p) (reports rules n p) := by
  induction n with
  | zero => intro p d r s out s' h; cases h
  | succ n ih =>
    intro p
    cases p with
    | terminal t =>
      intro d r s out s' h
      cases h
      exact Report.total_ofOutcome (t.read r)
    | leaf l =>
      intro d r s out s' h
      rw [run_leaf] at h
      simp only [Option.some.injEq] at h
      simp only [reports, h]
      exact Report.total_ofOutcome out
    | choice name ps => exact Run.choice_accounts fun q _ => ih q
    | sequence key label build accepts lookup parts =>
      refine Run.sequence_accounts fun i f hf => ?_
      obtain ⟨q, hq, rfl⟩ := Option.map_eq_some_iff.mp hf
      simp only [hq, Option.map_some, Option.getD_some]
      exact ih q
    | repetition b q => exact fun _ _ _ _ _ h => Run.cycle_accounts (ih q) h
    | sentence q => exact Run.sentence_accounts (ih q)
    | orEmpty token q => exact Run.orEmpty_accounts (ih q)
    | rule h =>
      simp only [run_rule, reports]
      cases rules.state h.id with
      | defined q => exact ih q
      | undefined =>
        intro d r s out s' hx
        cases hx
        rfl
      | dropped =>
        intro d r s out s' hx
        cases hx
        rfl

/-- What a finished call yields besides its matches is what was reported during it. -/
theorem run_besides {rules : Rules} {n : Nat} {p : Parser} {d : Tally} {r : Reader}
    {s s' : Session} {out : Outcome} (h : p.run rules n d r s = some (out, s')) :
    out.fault = (Report.total (p.reports rules n d r s)).fault ∧
      out.curtailed = (Report.total (p.reports rules n d r s)).curtailed := by
  rw [run_accounts rules n p h]
  exact ⟨rfl, rfl⟩

variable {rules : Rules} {n : Nat} {p : Parser} {d : Tally} {r : Reader} {s s' : Session}
  {out : Outcome}

/-- A call loses no fault and makes up none: it yields the foremost of those reported during it,
or none if there was none. -/
theorem run_fault (h : p.run rules n d r s = some (out, s')) :
    (out.fault = none ↔ Report.faults (p.reports rules n d r s) = []) ∧
      ∀ f, out.fault = some f ↔ f.Foremost (Report.faults (p.reports rules n d r s)) := by
  rw [(run_besides h).1]
  exact ⟨Report.fault_total_eq_none, fun f => Report.fault_total_eq_some⟩

end Parser

/-- Sums that begin with the letter `a`; `operand` reads every later summand. -/
def Grammar.sumsOf (operand : Parser) : Grammar where
  rules := ⟨[⟨"sum", .defined (.choice "sum" [
    .sequence ⟨0⟩ none (.group "SUM" none) (Draft.between 3 3) some
      [.rule ⟨0, "sum", false⟩, .terminal (.rune '+' "PLUS"), operand],
    .terminal (.rune 'a' "A")])⟩]⟩
  root := .sentence (.rule ⟨0, "sum", true⟩)

/-- After `a+` the sum itself matches, and what is further on was expected. -/
theorem Grammar.danglingSum_fault :
    let g := sumsOf (.terminal (.rune 'a' "A"))
    let r := Reader.ofText "a+" false
    let missing := Fault.parse ⟨2, 1, 3⟩ "was expecting \"a\""
    ∃ out s', g.root.run g.rules (g.fuel r) .zero r .fresh = some (out, s') ∧
      out.fault = some missing ∧
      missing.Foremost (Report.faults (g.root.reports g.rules (g.fuel r) .zero r .fresh)) := by
  intro g r missing
  have hfault : (g.root.run g.rules (g.fuel r) .zero r .fresh).map (·.1.fault) =
      some (some missing) := by decide
  obtain ⟨⟨out, s'⟩, hrun, hout⟩ := Option.map_eq_some_iff.mp hfault
  exact ⟨out, s', hrun, hout, ((Parser.run_fault hrun).2 missing).mp hout⟩

namespace Parser

variable {rules : Rules} {n : Nat} {p : Parser} {d : Tally} {r : Reader} {s s' : Session}
  {out : Outcome}

/-- A call is cut short by exactly the identities that were refused during it. -/
theorem run_curtailed (h : p.run rules n d r s = some (out, s')) :
    (∀ id, out.curtailed.contains id = true ↔ Report.refusal id ∈ p.reports rules n d r s) ∧
      (out.curtailed.isEmpty = true ↔ ∀ id, Report.refusal id ∉ p.reports rules n d r s) := by
  rw [(run_besides h).2]
  exact ⟨fun id => Report.contains_curtailed_total, Report.isEmpty_curtailed_total⟩

end Parser

/-- In `a+` the sum is refused when it is entered too often, and the leaf refuses after the sign. -/
theorem Grammar.danglingSum_curtailed :
    let g := sumsOf (.leaf (.refusing 7))
    let r := Reader.ofText "a+" false
    ∃ out s', g.root.run g.rules (g.fuel r) .zero r .fresh = some (out, s') ∧
      out.curtailed.ids = [0, 7] ∧
      ∀ id, Report.refusal id ∈ g.root.reports g.rules (g.fuel r) .zero r .fresh ↔
        id = 0 ∨ id = 7 := by
  intro g r
  have hids : (g.root.run g.rules (g.fuel r) .zero r .fresh).map (·.1.curtailed.ids) =
      some [0, 7] := by decide
  obtain ⟨⟨out, s'⟩, hrun, hout⟩ := Option.map_eq_some_iff.mp hids
  refine ⟨out, s', hrun, hout, fun id => ?_⟩
  have hitems : out.curtailed.items = [0, 7] := hout
  rw [← (Parser.run_curtailed hrun).1 id]
  simp only [IdSet.contains, Ascending.hasKey, hitems, List.any_cons, List.any_nil, Bool.or_false,
    Bool.or_eq_true, beq_iff_eq]
  rw [eq_comm, @eq_comm _ 7 id]

end Curtail
