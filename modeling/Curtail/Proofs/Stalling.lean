/-
# Repetitions that read nothing

A repetition whose part matches without reading on is tried once more at the
same place, and then its chain ends: after two of them, or where the bound
above is reached before. So a chain that reads nothing is never longer than
two. A repetition that needs more of them than that finds nothing, however
often its part would match; every other one finds the one empty match.

Key definitions: `Run.Bounds.emptyLaps`.
Key theorems: `Run.cycle_lap`, `Run.cycle_stalled`, `Parser.repetition_stalls`,
`Parser.repetition_of_empty`.
-/
import Curtail.Proofs.Searching

namespace Curtail
namespace Run

/-- How often a part that reads nothing is repeated: twice, or as often as is allowed if that is
less. -/
def Bounds.emptyLaps (b : Bounds) : Nat := b.most.elim 2 (min 2)

theorem Bounds.emptyLaps_eq (b : Bounds) :
    b.emptyLaps = if b.full 0 then 0 else if b.full 1 then 1 else 2 := by
  unfold Bounds.emptyLaps Bounds.full
  cases b.most with
  | none => rfl
  | some most =>
    simp only [Option.elim_some, Option.any_some, decide_eq_true_eq]
    split
    · omega
    · split <;> omega

section Laps

variable {rules : Rules} {J : Session → Prop} {p : Parser} {find : Reader → Matches} {b : Bounds}
  {d : Tally} {r : Reader} {m : Match} {nodes : List Node} {count : Nat} {stalled : Bool}
  {found : Matches}

theorem cycle_full (hfull : b.full count = true) :
    Gives J (fun n => cycle b (p.run rules n) n d r nodes count stalled)
      (b.finish r nodes count).results :=
  fun s hs => ⟨1, _, s, cycle_succ_eq_some.mpr (.inl ⟨hfull, rfl⟩), rfl, hs⟩

/-- Where the part has one match, a chain goes on from it. -/
theorem cycle_lap (hp : p.Gives rules J d r (find r)) (hm : (find r).items = [m])
    (hfull : b.full count = false)
    (hon : Gives J (fun n => cycleOn b (p.run rules n) n d r nodes count stalled m) found) :
    Gives J (fun n => cycle b (p.run rules n) n d r nodes count stalled) found := by
  intro s hs
  obtain ⟨n₁, out, s₁, hrun, hout, hs₁⟩ := hp s hs
  obtain ⟨n₂, rest, s₂, hrest, hfound, hs₂⟩ := hon s₁ hs₁
  have hitems : out.results.items = [m] := by rw [hout, hm]
  have hmatch : out.isMatch = true := by simp [Outcome.isMatch, Ascending.isEmpty, hitems]
  have hrun' : p.run rules (max n₁ n₂ + 1) d r s = some (out, s₁) :=
    Parser.run_mono (by omega) hrun
  have hgather : gather (cycleOn b (p.run rules (max n₁ n₂ + 1)) (max n₁ n₂) d r nodes count
      stalled) out.results.items s₁ = some (rest, s₂) := by
    rw [hitems, gather_singleton]
    exact cycleOn_mono (by omega) (Nat.le_max_right n₁ n₂) m s₁ _ hrest
  refine ⟨max n₁ n₂ + 1, _, s₂, cycle_succ_eq_some.mpr
    (.inr ⟨hfull, out, s₁, hrun', .inr ⟨hmatch, rest, s₂, hgather, rfl⟩⟩), ?_, hs₂⟩
  show ∅ ++ rest.results = _
  rw [Ascending.empty_append, hfound]

/-- The second of two repetitions that read nothing is the last. -/
theorem cycle_stalled (hp : p.Gives rules J d r (find r)) (hm : (find r).items = [m])
    (hempty : m.reader = r) (hfull : b.full count = false) :
    Gives J (fun n => cycle b (p.run rules n) n d r nodes count true)
      (b.finish r (m.node.toList ++ nodes) (count + 1)).results := by
  refine cycle_lap hp hm hfull fun s hs => ⟨0, _, s, ?_, rfl, hs⟩
  simp only [cycleOn, Match.stopOffset, hempty, Nat.lt_irrefl, if_false, if_true]

/-- The first of them is tried once more. -/
theorem cycle_unstalled (hp : p.Gives rules J d r (find r)) (hm : (find r).items = [m])
    (hempty : m.reader = r) (hfull : b.full count = false)
    (hnext : Gives J
      (fun n => cycle b (p.run rules n) n d r (m.node.toList ++ nodes) (count + 1) true) found) :
    Gives J (fun n => cycle b (p.run rules n) n d r nodes count false) found := by
  refine cycle_lap hp hm hfull fun s hs => ?_
  simp only [cycleOn, Match.stopOffset, hempty, Nat.lt_irrefl, if_false]
  exact hnext s hs

end Laps

end Run

namespace Parser

variable {rules : Rules} {p : Parser} {find : Reader → Matches} {r : Reader} {m : Match}

/-- The nodes of `k` repetitions with the same match. -/
def lapNodes (m : Match) (k : Nat) : List Node := (List.replicate k m.node.toList).flatten

theorem lapNodes_succ (m : Match) (k : Nat) :
    lapNodes m (k + 1) = m.node.toList ++ lapNodes m k := by
  rw [lapNodes, List.replicate_succ, List.flatten_cons, lapNodes]

theorem reverse_lapNodes (m : Match) (k : Nat) : (lapNodes m k).reverse = lapNodes m k := by
  unfold lapNodes
  cases m.node with
  | none => simp
  | some node => simp [List.flatten_replicate_singleton]

/-- A part that reads nothing is repeated until the chain is full or was tried once more. -/
theorem cycle_gives_emptyLaps {J : Session → Prop} {d : Tally} (hp : p.Gives rules J d r (find r))
    (hm : (find r).items = [m]) (hempty : m.reader = r) (b : Run.Bounds) :
    Run.Gives J (fun n => Run.cycle b (p.run rules n) n d r [] 0 false)
      (b.finish r (lapNodes m b.emptyLaps) b.emptyLaps).results := by
  cases hzero : b.full 0 with
  | true =>
    have hlaps : b.emptyLaps = 0 := by simp [b.emptyLaps_eq, hzero]
    rw [hlaps]
    exact Run.cycle_full hzero
  | false =>
    refine Run.cycle_unstalled hp hm hempty hzero ?_
    cases hone : b.full 1 with
    | true =>
      have hlaps : b.emptyLaps = 1 := by simp [b.emptyLaps_eq, hzero, hone]
      rw [hlaps, lapNodes_succ]
      exact Run.cycle_full hone
    | false =>
      have hlaps : b.emptyLaps = 2 := by simp [b.emptyLaps_eq, hzero, hone]
      rw [hlaps, lapNodes_succ, lapNodes_succ]
      exact Run.cycle_stalled hp hm hempty hone

/-- A repetition of a part that reads nothing finds one match after the laps of its chain, if they
are enough. -/
theorem repetition_stalls (hp : p.Pure rules find) (hm : (find r).items = [m])
    (hempty : m.reader = r) (b : Run.Bounds) (d : Tally) (s : Session) :
    (repetition b p).Results rules d r s (.ofList _ (if b.least ≤ b.emptyLaps then
      [⟨b.nodeOf b.emptyLaps (lapNodes m b.emptyLaps), r⟩] else [])) := by
  obtain ⟨n, out, s', hrun, hout, -⟩ :=
    cycle_gives_emptyLaps (hp.gives d r) hm hempty b s.countCall trivial
  refine ⟨n + 1, out, s', hrun, ?_⟩
  rw [hout, Run.results_finish, reverse_lapNodes]

/-- Bounds that do not cross allow for two repetitions, or for as many as are needed. -/
theorem least_le_emptyLaps {b : Run.Bounds} (hb : ∀ most, b.most = some most → b.least ≤ most) :
    b.least ≤ b.emptyLaps ↔ b.least ≤ 2 := by
  unfold Run.Bounds.emptyLaps
  cases hmost : b.most with
  | none => rfl
  | some most =>
    have := hb most hmost
    rw [Option.elim_some]
    omega

theorem assembleRepetition_eq_ok {least : Nat} {most : Option Nat}
    (hbounds : ∀ n, most = some n → least ≤ n) (build : Builder) (p : Parser) :
    Draft.assembleRepetition build p least most = .ok (repetition ⟨least, most, build⟩ p) := by
  cases most with
  | none => rfl
  | some n => exact if_neg (Nat.not_lt.mpr (hbounds n rfl))

/-- **What a repetition of an empty match finds.** Say that all a pure part finds at a reader is one
match that ends there. A repetition of it whose bounds do not cross comes to an end when it is called
there. If it needs two repetitions or fewer it finds exactly one match, which ends there too, and its
node is made from those of two repetitions, or of as many as are allowed if that is less: of none, it
has no node. If it needs more it finds nothing. -/
theorem repetition_of_empty (hp : p.Pure rules find) (hm : (find r).items = [m])
    (hempty : m.reader = r) {least : Nat} {most : Option Nat}
    (hbounds : ∀ n, most = some n → least ≤ n) (build : Builder) :
    ∃ q, Draft.assembleRepetition build p least most = .ok q ∧ ∀ d s, ∃ found,
      q.Results rules d r s found ∧
      (least ≤ 2 → let k := most.elim 2 (min 2)
        found.items = [⟨if k = 0 then none else build (lapNodes m k), r⟩]) ∧
      (2 < least → found.items = []) := by
  set b : Run.Bounds := ⟨least, most, build⟩
  have hleast := least_le_emptyLaps (b := b) hbounds
  refine ⟨_, assembleRepetition_eq_ok hbounds build p, fun d s =>
    ⟨_, repetition_stalls hp hm hempty b d s, fun hfew => ?_, fun hmany => ?_⟩⟩
  · rw [if_pos (hleast.mpr hfew)]
    rfl
  · rw [if_neg fun h => absurd (hleast.mp h) (Nat.not_le.mpr hmany)]
    rfl

theorem repetition_of_empty_twice :
    ((terminal .empty).Pure .empty (fun r => (Terminal.empty.read r).results) ∧
      (Terminal.empty.read (Reader.ofText "a" false)).results.items =
        [⟨none, Reader.ofText "a" false⟩] ∧
      ∀ n, (none : Option Nat) = some n → 2 ≤ n) ∧
    ∃ q, Draft.assembleRepetition (.group "M" none) (terminal .empty) 2 none = .ok q ∧
      ∀ d s, ∃ found, q.Results .empty d (Reader.ofText "a" false) s found ∧
        ∃ m, found.items = [m] ∧ m.reader = Reader.ofText "a" false := by
  have hitems : (Terminal.empty.read (Reader.ofText "a" false)).results.items =
      [⟨none, Reader.ofText "a" false⟩] := rfl
  have hbounds : ∀ n, (none : Option Nat) = some n → 2 ≤ n := nofun
  have hpure : (terminal .empty).Pure .empty fun r => (Terminal.empty.read r).results :=
    pure_terminal _
  refine ⟨⟨hpure, hitems, hbounds⟩, ?_⟩
  obtain ⟨q, hq, hfound⟩ := repetition_of_empty hpure hitems rfl hbounds (.group "M" none)
  refine ⟨q, hq, fun d s => ?_⟩
  obtain ⟨found, hresults, hone, -⟩ := hfound d s
  exact ⟨found, hresults, _, hone (Nat.le_refl 2), rfl⟩

/-- The counterexample to a repetition honouring every bound below: the empty text matches any number
of times, but nothing is found when three are needed. -/
theorem empty_needed_thrice :
    (terminal .empty).Pure .empty (fun r => (Terminal.empty.read r).results) ∧
    (Terminal.empty.read (Reader.ofText "" false)).results.items =
      [⟨none, Reader.ofText "" false⟩] ∧
    ∃ q, Draft.assembleRepetition (.group "M" none) (terminal .empty) 3 none = .ok q ∧
      (∃ found, q.Results .empty .zero (Reader.ofText "" false) .fresh found) ∧
      ∀ found, q.Results .empty .zero (Reader.ofText "" false) .fresh found → found.items = [] := by
  have hnothing : (repetition ⟨3, none, .group "M" none⟩ (terminal .empty)).run .empty 4 .zero
      (Reader.ofText "" false) .fresh = some (∅, Session.fresh.countCall.countCall.countCall) := rfl
  refine ⟨pure_terminal _, rfl, _, rfl, ⟨∅, 4, _, _, hnothing, rfl⟩, ?_⟩
  rintro found ⟨n, out, s', hrun, rfl⟩
  obtain ⟨rfl, -⟩ := Prod.mk.inj (run_unique hrun hnothing)
  rfl

end Parser

end Curtail
