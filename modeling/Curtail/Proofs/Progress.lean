/-
# Sequences that get stuck report where

A sequence that finds no match although its first part does got stuck: on every
route through its parts there is a part that does not match where the part
before it ended. The fault of a sequence is the furthest of those on its way. A
part after the first that neither matches nor reports a fault is reported as
expected, so wherever a route ends there is a fault at its end or behind it,
and the furthest fault is behind the furthest end.

A first part that neither matches nor reports a fault is not expected: the
sequence does not apply.

Key definitions: `Parser.Answers`, `Outcome.Onward`, `Fault.NotBefore`.
Key theorems: `Fault.NotBefore.furthest_left`, `Run.walk_notBefore`,
`Parser.sequence_progress`.
-/
import Curtail.Proofs.Positions
import Curtail.Proofs.Searching

namespace Curtail

/-! ### How far a fault lies -/

/-- There is a fault, and it lies at an offset or behind it. -/
def Fault.NotBefore (offset : Nat) (fault : Option Fault) : Prop :=
  ∃ f place, fault = some f ∧ f.place? = some place ∧ offset ≤ place.offset

namespace Fault

variable {offset offset' : Nat} {a b : Option Fault}

theorem NotBefore.mono (h : NotBefore offset a) (hle : offset' ≤ offset) : NotBefore offset' a := by
  obtain ⟨f, place, hf, hplace, hoffset⟩ := h
  exact ⟨f, place, hf, hplace, Nat.le_trans hle hoffset⟩

theorem notBefore_some_iff {f : Fault} : NotBefore offset (some f) ↔ offset < f.depth := by
  constructor
  · rintro ⟨_, place, ⟨⟩, hplace, hoffset⟩
    rw [depth, hplace]
    exact Nat.lt_succ_of_le hoffset
  · intro h
    cases hplace : f.place? with
    | none =>
      rw [depth, hplace] at h
      exact absurd h (Nat.not_lt_zero _)
    | some place =>
      rw [depth, hplace] at h
      exact ⟨f, place, rfl, hplace, Nat.le_of_lt_succ h⟩

/-- The furthest of two faults is not before the first of them. -/
theorem NotBefore.furthest_left (h : NotBefore offset a) : NotBefore offset (furthest a b) := by
  cases a with
  | none =>
    obtain ⟨f, _, hf, -⟩ := h
    cases hf
  | some f =>
    cases b with
    | none => exact h
    | some g =>
      rw [furthest]
      split
      · exact notBefore_some_iff.mpr (Nat.lt_of_lt_of_le (notBefore_some_iff.mp h) ‹_›)
      · exact h

theorem NotBefore.furthest_right (h : NotBefore offset b) : NotBefore offset (furthest a b) := by
  cases b with
  | none =>
    obtain ⟨f, _, hf, -⟩ := h
    cases hf
  | some g =>
    cases a with
    | none => exact h
    | some f =>
      rw [furthest]
      split
      · exact h
      · exact notBefore_some_iff.mpr
          (Nat.lt_trans (notBefore_some_iff.mp h) (Nat.lt_of_not_le ‹_›))

end Fault

/-! ### Outcomes -/

theorem Ascending.items_append_eq_nil {α : Type} {key : α → Nat} {s t : Ascending key}
    (h : (s ++ t).items = []) : s.items = [] ∧ t.items = [] := by
  have hfind : ∀ k, (s.find? k).or (t.find? k) = none := by
    intro k
    rw [← Ascending.find?_append, Ascending.find?, h]
    rfl
  constructor
  · refine List.eq_nil_iff_forall_not_mem.mpr fun a ha => ?_
    have := (Option.or_eq_none_iff.mp (hfind (key a))).1
    rw [Ascending.find?_eq_some_iff.mpr ⟨ha, rfl⟩] at this
    cases this
  · refine List.eq_nil_iff_forall_not_mem.mpr fun a ha => ?_
    have := (Option.or_eq_none_iff.mp (hfind (key a))).2
    rw [Ascending.find?_eq_some_iff.mpr ⟨ha, rfl⟩] at this
    cases this

theorem Outcome.isMatch_append_eq_false {a b : Outcome} (h : (a ++ b).isMatch = false) :
    a.isMatch = false ∧ b.isMatch = false := by
  simp only [isMatch_eq_false_iff] at h ⊢
  exact Ascending.items_append_eq_nil h

/-- Nothing that was found or reported at `r` lies before it, and nothing was cut short. -/
structure Outcome.Onward (r : Reader) (out : Outcome) : Prop where
  ahead : ∀ m ∈ out.results.items, r.cursor.offset ≤ m.stopOffset
  placed : out.fault ≠ none → Fault.NotBefore r.cursor.offset out.fault
  uncurtailed : out.curtailed = ∅

theorem Terminal.onward_read (t : Terminal) (r : Reader) : (t.read r).Onward r where
  ahead _ hm := (t.ahead_of_mem_read hm).le
  placed hne := by
    obtain ⟨f, hf⟩ := Option.ne_none_iff_exists'.mp hne
    exact ⟨f, _, hf, t.place_of_fault hf, r.ahead_token.le⟩
  uncurtailed := t.curtailed_read r

namespace Run

/-- Where nothing matches in the end, what one of the matches leads to is no match either, and its
fault is not lost among the others. -/
theorem gather_notBefore {f : Match → Session → Option (Outcome × Session)} {offset : Nat}
    {m : Match} (hm : ∀ s out s', f m s = some (out, s') → out.isMatch = false →
      Fault.NotBefore offset out.fault) :
    ∀ {ms : List Match} {s : Session} {out : Outcome} {s' : Session}, m ∈ ms →
      gather f ms s = some (out, s') → out.isMatch = false → Fault.NotBefore offset out.fault
  | [], _, _, _, hmem, _, _ => absurd hmem List.not_mem_nil
  | m' :: ms, s, out, s', hmem, h, hnone => by
    obtain ⟨a, s₁, b, s₂, ha, hb, heq⟩ := gather_cons_eq_some.mp h
    cases heq
    obtain ⟨hnone_a, hnone_b⟩ := Outcome.isMatch_append_eq_false hnone
    rcases List.mem_cons.mp hmem with rfl | hmem
    · exact (hm _ _ _ ha hnone_a).furthest_left
    · exact (gather_notBefore hm hmem hb hnone_b).furthest_right

/-! ### Walks -/

section Walks

variable {steps : Steps} {answers : List (Reader → Outcome)}

/-- What the parts that give `answers` find. -/
def foundBy (answers : List (Reader → Outcome)) : List (Reader → Matches) :=
  answers.map fun f r => (f r).results

/-- A part after the first that has no match leaves a fault at its start or behind it, if the
sequence cannot end before it. -/
theorem notBefore_faultAt {r : Reader} {k : Nat} {out : Outcome} (hk : 0 < k)
    (haccepts : steps.accepts k = false) (honward : out.Onward r) (hnone : out.isMatch = false) :
    Fault.NotBefore r.cursor.offset (steps.faultAt r k out) := by
  unfold Steps.faultAt
  cases hfault : out.fault with
  | none =>
    have hcurtailed : out.curtailed.isEmpty = true := by rw [honward.uncurtailed]; rfl
    simp only [hk, haccepts, hnone, hcurtailed, decide_true, Bool.not_false, Option.isNone_none,
      Bool.and_true, if_true]
    exact ⟨_, _, rfl, rfl, r.ahead_token.le⟩
  | some f =>
    have hplaced := honward.placed (by rw [hfault]; exact Option.some_ne_none f)
    rw [hfault] at hplaced
    simpa using hplaced

/-- The parts give `answers`, and the sequence ends only after all of them. -/
structure Steps.TakesAll (steps : Steps) (answers : List (Reader → Outcome)) : Prop where
  part : ∀ k f, answers[k]? = some f → ∃ p, steps.part k = some p ∧
    ∀ d r s out s', p d r s = some (out, s') → out = f r
  last : steps.part answers.length = none
  accepts : ∀ k, steps.accepts k = decide (k = answers.length)

theorem route_foundBy_cons {k i : Nat} {f : Reader → Outcome} {r : Reader} {m : Match}
    {ms : List Match} (hf : answers[k]? = some f)
    (h : Route ((foundBy (answers.drop k)).take i) r (m :: ms)) :
    m ∈ (f r).results.items ∧ ∃ i, Route ((foundBy (answers.drop (k + 1))).take i) m.reader ms := by
  obtain ⟨hk, rfl⟩ := List.getElem?_eq_some_iff.mp hf
  rw [foundBy, List.drop_eq_getElem_cons hk, List.map_cons] at h
  cases i with
  | zero => cases h
  | succ i =>
    rw [List.take_succ_cons] at h
    obtain ⟨m', rest, heq, hm, hroute⟩ := route_cons_iff.mp h
    cases heq
    exact ⟨hm, i, hroute⟩

/-- The induction is on the fuel, along a route: the walk goes on from the next match of the route,
or from any match where the route has come to its end. -/
theorem walk_notBefore (hsteps : steps.TakesAll answers)
    (honward : ∀ f ∈ answers, ∀ r, (f r).Onward r) :
    ∀ {n : Nat} {d : Tally} {r : Reader} {k : Nat} {nodes : List Node} {s : Session}
      {out : Outcome} {s' : Session}, k ≤ answers.length →
      walk steps n d r k nodes s = some (out, s') → out.isMatch = false →
      ∀ {i : Nat} {ms : List Match}, Route ((foundBy (answers.drop k)).take i) r ms →
        0 < k + ms.length → Fault.NotBefore (readerAfter r ms).cursor.offset out.fault
  | 0, _, _, _, _, _, _, _, _, h, _, _, _, _, _ => by cases h
  | n + 1, d, r, k, nodes, s, out, s', hk, h, hnone, i, ms, hroute, hpos => by
    rcases Nat.lt_or_eq_of_le hk with hlt | rfl
    · have hf : answers[k]? = some answers[k] := List.getElem?_eq_getElem hlt
      have hhere := honward _ (List.getElem_mem hlt) r
      obtain ⟨p, hp, hanswer⟩ := hsteps.part k _ hf
      rcases walk_succ_eq_some.mp h with ⟨hnopart, -⟩ | ⟨p', a, s₁, rest, s₂, hp', ha, hg, heq⟩
      · rw [hp] at hnopart
        cases hnopart
      · rw [hp] at hp'
        cases hp'
        obtain rfl := hanswer _ _ _ _ _ ha
        have haccepts : steps.accepts k = false := by simp [hsteps.accepts, Nat.ne_of_lt hlt]
        have hempty : steps.finishIf r k nodes = ∅ := by simp [Steps.finishIf, haccepts]
        rw [hempty, Outcome.append_empty] at heq
        cases heq
        have hrest := (Outcome.isMatch_append_eq_false hnone).2
        -- a match of this part that the route goes on from
        have hnext : ∀ m ∈ (answers[k] r).results.items, ∀ {i ms},
            Route ((foundBy (answers.drop (k + 1))).take i) m.reader ms →
            Fault.NotBefore (readerAfter m.reader ms).cursor.offset rest.fault := by
          intro m hm i ms hroute
          refine gather_notBefore (fun s out s' hon hnone => ?_) hm hg hrest
          exact walk_notBefore hsteps honward hlt hon hnone hroute (by omega)
        cases ms with
        | cons m ms =>
          obtain ⟨hm, i, hroute⟩ := route_foundBy_cons hf hroute
          exact (hnext m hm hroute).furthest_right
        | nil =>
          cases hitems : (answers[k] r).results.items with
          | nil =>
            have hmatch := Outcome.isMatch_eq_false_iff.mpr hitems
            exact (notBefore_faultAt (by simpa using hpos) haccepts hhere hmatch).furthest_left
          | cons m _ =>
            have hm : m ∈ (answers[k] r).results.items := hitems ▸ List.mem_cons_self
            exact ((hnext m hm (i := 0) .nil).mono (hhere.ahead m hm)).furthest_right
    · rcases walk_succ_eq_some.mp h with ⟨-, heq⟩ | ⟨p, _, _, _, _, hp, -⟩
      · cases heq
        simp [Steps.finishIf, hsteps.accepts, Steps.finish, Outcome.matched, Outcome.isMatch,
          Ascending.isEmpty] at hnone
      · rw [hsteps.last] at hp
        cases hp

end Walks

end Run

namespace Parser

variable {rules : Rules} {p first : Parser} {others parts : List Parser} {f : Reader → Outcome}
  {answers : List (Reader → Outcome)}

/-- Wherever the parser is called it comes to an end, and its outcome depends on nothing but the
reader. -/
def Answers (rules : Rules) (p : Parser) (f : Reader → Outcome) : Prop := ∀ d r s, ∃ n s',
  p.run rules n d r s = some (f r, s')

theorem Answers.pure (h : p.Answers rules f) : p.Pure rules fun r => (f r).results := by
  intro d r s
  obtain ⟨n, s', hrun⟩ := h d r s
  exact ⟨n, f r, s', hrun, rfl⟩

theorem Answers.eq (h : p.Answers rules f) {n : Nat} {d : Tally} {r : Reader} {s s' : Session}
    {out : Outcome} (hrun : p.run rules n d r s = some (out, s')) : out = f r := by
  obtain ⟨n', s'', hrun'⟩ := h d r s
  exact (Prod.mk.inj (run_unique hrun hrun')).1

theorem answers_terminal (t : Terminal) : (terminal t).Answers rules t.read :=
  fun _ _ s => ⟨1, s.countCall, rfl⟩

theorem answers_leaf {l : Leaf} (hl : l.Pure f) : (leaf l).Answers rules f :=
  fun d r s => ⟨1, s.countCall, congrArg some (hl d r s.countCall)⟩

theorem pure_of_answers (h : List.Forall₂ (Answers rules) parts answers) :
    List.Forall₂ (Pure rules) parts (Run.foundBy answers) := by
  rw [Run.foundBy, List.forall₂_map_right_iff]
  exact h.imp fun _ _ => Answers.pure

theorem takesAll_steps (h : List.Forall₂ (Answers rules) parts answers) (n : Nat) (build : Builder)
    {accepts : Nat → Bool} (haccepts : ∀ k, accepts k = decide (k = parts.length)) :
    (steps rules n build accepts some parts).TakesAll answers where
  part k f hf := by
    have hk : k < parts.length := h.length_eq ▸ (List.getElem?_eq_some_iff.mp hf).1
    have hp : parts[k]? = some parts[k] := List.getElem?_eq_getElem hk
    refine ⟨parts[k].run rules n, by simp [steps, pick, hk], fun d r s out s' hrun => ?_⟩
    exact (forall₂_getElem? h hp hf).eq hrun
  last := by simp [steps, pick, ← h.length_eq]
  accepts k := by rw [← h.length_eq]; exact haccepts k

theorem between_self (n k : Nat) : Draft.between n n k = decide (k = n) := by
  simp only [Draft.between, ← Bool.decide_and, decide_eq_decide]
  omega

/-- Entered for the first time, a sequence of pure parts walks over them to the end. -/
theorem sequence_walks {finds : List (Reader → Matches)}
    (hpure : List.Forall₂ (Pure rules) parts finds) (key : Key) (label : Option String)
    (build : Builder) (accepts : Nat → Bool) (r : Reader) (s : Session) : ∃ n out s',
      Run.walk (steps rules n build accepts some parts) n
        (Tally.zero.inc (s.countCall.register key).1) r 0 [] (s.countCall.register key).2 =
          some (out, s') ∧
      (sequence key label build accepts some parts).run rules (n + 1) .zero r s =
        some ({ out with results :=
            (s'.grow (s.countCall.register key).1 r.cursor.offset out.results).1 },
          (s'.grow (s.countCall.register key).1 r.cursor.offset out.results).2) := by
  have hcall : ∀ {k : Nat} {d : Tally} {r : Reader} {p : Parser} {find : Reader → Matches},
      parts[k]? = some p → finds[k]? = some find → True →
      p.Gives rules (fun _ => True) d r (find r) := by
    intro k d r p find hp hfind _
    exact (forall₂_getElem? hpure hp hfind).gives d r
  obtain ⟨n, out, s', hwalk, -, -⟩ := Run.walk_gives (J := fun _ => True) build accepts
    (fun _ _ _ => True) hpure.length_eq hcall (fun _ _ _ => trivial) finds.length (r := r)
    (d := Tally.zero.inc (s.countCall.register key).1) [] (Nat.zero_add _) trivial
    (s.countCall.register key).2 trivial
  have hentered : Run.refuses .zero r (s.countCall.register key).1 = false :=
    decide_eq_false (Nat.not_lt_zero _)
  refine ⟨n, out, s', hwalk, ?_⟩
  rw [run_sequence]
  exact Run.sequence_eq_some.mpr (.inr ⟨hentered, out, s', hwalk, rfl⟩)

/-- A first part that neither matches nor reports a fault leaves the walk with nothing. -/
theorem walk_of_no_match {steps : Run.Steps} {n : Nat} {d : Tally} {r : Reader}
    {s s' : Session} {out : Outcome} (hsteps : steps.TakesAll (f :: answers))
    (hnone : (f r).isMatch = false) (hfault : (f r).fault = none)
    (h : Run.walk steps n d r 0 [] s = some (out, s')) :
    out.isMatch = false ∧ out.fault = none ∧
      ∃ p, steps.part 0 = some p ∧ p d r s = some (f r, s') := by
  cases n with
  | zero => cases h
  | succ n =>
    obtain ⟨p, hp, hanswer⟩ := hsteps.part 0 f rfl
    rcases Run.walk_succ_eq_some.mp h with ⟨hnopart, -⟩ | ⟨p', a, s₁, rest, s₂, hp', ha, hg, heq⟩
    · rw [hp] at hnopart
      cases hnopart
    · rw [hp] at hp'
      cases hp'
      obtain rfl := hanswer _ _ _ _ _ ha
      rw [Outcome.isMatch_eq_false_iff.mp hnone] at hg
      cases hg
      have hempty : steps.finishIf r 0 [] = ∅ := by simp [Run.Steps.finishIf, hsteps.accepts]
      have hfaultAt : steps.faultAt r 0 (f r) = none := by simp [Run.Steps.faultAt, hfault]
      rw [hempty, hfaultAt] at heq
      cases heq
      exact ⟨rfl, rfl, p, hp, ha⟩

/-- **A sequence does not fail silently.** The parts may be any whose outcomes depend on nothing but
the reader, that find and report nothing before it and cut nothing short. Called with nothing
remembered and no depths, the sequence comes to an end. If the first part matches but the sequence
does not, there is a fault, and it is not before the end of any route through one or more of the
parts. If the first part neither matches nor reports a fault, nor does the sequence. -/
theorem sequence_progress (hfirst : first.Answers rules f)
    (hothers : List.Forall₂ (Answers rules) others answers) (hkeeps : first.RemembersNothing rules)
    (honward : ∀ g ∈ f :: answers, ∀ r, (g r).Onward r) (label : Option String) (build : Builder)
    (w : Draft.Workshop) (r : Reader) {s : Session} (hs : ∀ id offset, s.memo.known id offset = ∅) :
    ∃ p w', Draft.assembleParts label build (first :: others).length (first :: others) w =
        .ok (p, w') ∧
      ∃ n out s', p.run rules n .zero r s = some (out, s') ∧
        ((f r).isMatch = true → out.isMatch = false →
          ∀ k ms, 1 ≤ k → Route ((Run.foundBy (f :: answers)).take k) r ms →
            Fault.NotBefore (readerAfter r ms).cursor.offset out.fault) ∧
        ((f r).isMatch = false → (f r).fault = none → out.isMatch = false ∧ out.fault = none) := by
  have hparts : List.Forall₂ (Answers rules) (first :: others) (f :: answers) :=
    .cons hfirst hothers
  obtain ⟨w', hw⟩ := assembleParts_eq_ok (List.cons_ne_nil first others) label build
    (first :: others).length w
  obtain ⟨n, out, s', hwalk, hrun⟩ := sequence_walks (pure_of_answers hparts) ⟨w.nextNumber⟩ label
    build (Draft.between (first :: others).length (first :: others).length) r s
  have hsteps := takesAll_steps hparts n build (between_self (first :: others).length)
  refine ⟨_, w', hw, n + 1, _, _, hrun, fun _ hnone k ms hk hroute => ?_, fun hnone hfault => ?_⟩
  · have hout := (Ascending.items_append_eq_nil (Outcome.isMatch_eq_false_iff.mp hnone)).1
    refine Run.walk_notBefore hsteps honward (Nat.zero_le _) hwalk
      (Outcome.isMatch_eq_false_iff.mpr hout) hroute ?_
    rw [hroute.length_eq, List.length_take, Run.foundBy, List.length_map, List.length_cons]
    omega
  · obtain ⟨hout, hquiet, p, hp, hfirst'⟩ := walk_of_no_match hsteps hnone hfault hwalk
    obtain rfl : first.run rules n = p := Option.some.inj hp
    have hknown : s'.memo.known (s.countCall.register ⟨w.nextNumber⟩).1 r.cursor.offset = ∅ := by
      rw [(hkeeps hfirst').known, (s.keeps_register _).known, hs]
    refine ⟨Outcome.isMatch_eq_false_iff.mpr ?_, hquiet⟩
    show (out.results ++ s'.memo.known _ _).items = []
    rw [hknown, Ascending.append_empty]
    exact Outcome.isMatch_eq_false_iff.mp hout

theorem onward_strides (r : Reader) : (strides r).Onward r where
  ahead _ hm := (past_of_mem_strides hm).le
  placed hne := absurd rfl hne
  uncurtailed := rfl

/-- Two steps lead to the end of the text, and nothing is left for the letter after them. -/
theorem striding_letter_progress :
    ((striding.Answers .empty strides ∧ striding.RemembersNothing .empty) ∧
      List.Forall₂ (Answers .empty) [.terminal (.rune 'x' "X")] [(Terminal.rune 'x' "X").read] ∧
      ∀ g ∈ [strides, (Terminal.rune 'x' "X").read], ∀ r, (g r).Onward r) ∧
    ∃ p w', Draft.assembleParts none (.group "S" none) 2 [striding, .terminal (.rune 'x' "X")]
        ⟨0, .empty⟩ = .ok (p, w') ∧
      ∃ n out s', p.run .empty n .zero (Reader.ofText "ab" false) .fresh = some (out, s') ∧
        out.isMatch = false ∧ Fault.NotBefore 2 out.fault := by
  have hstriding : striding.Answers .empty strides := answers_leaf fun _ _ _ => rfl
  have hothers : List.Forall₂ (Answers .empty) [.terminal (.rune 'x' "X")]
      [(Terminal.rune 'x' "X").read] := .cons (answers_terminal _) .nil
  have honward : ∀ g ∈ [strides, (Terminal.rune 'x' "X").read], ∀ r, (g r).Onward r := by
    intro g hg
    simp only [List.mem_cons, List.not_mem_nil, or_false] at hg
    rcases hg with rfl | rfl
    · exact onward_strides
    · exact Terminal.onward_read _
  refine ⟨⟨⟨hstriding, remembersNothing_striding⟩, hothers, honward⟩, ?_⟩
  obtain ⟨p, w', hp, n, out, s', hrun, hprogress, -⟩ :=
    sequence_progress hstriding hothers remembersNothing_striding honward none (.group "S" none)
      ⟨0, .empty⟩ (Reader.ofText "ab" false) (s := .fresh) fun _ _ => rfl
  have hevaluated : ∃ out' s'', p.run .empty 5 .zero (Reader.ofText "ab" false) .fresh =
      some (out', s'') ∧ out'.isMatch = false := by
    cases hp
    exact ⟨_, _, rfl, rfl⟩
  obtain ⟨out', s'', hrun', hnone⟩ := hevaluated
  obtain ⟨rfl, -⟩ := Prod.mk.inj (run_unique hrun hrun')
  refine ⟨p, w', hp, n, out, s', hrun, hnone, ?_⟩
  have hlonger : ⟨some (.leaf "STRIDE" .nil .start ((Reader.ofText "ab" false).skip 2).cursor),
      (Reader.ofText "ab" false).skip 2⟩ ∈ (strides (Reader.ofText "ab" false)).results.items :=
    List.mem_cons_of_mem _ List.mem_cons_self
  exact hprogress rfl hnone 1 _ (Nat.le_refl 1) (.cons hlonger .nil)

end Parser

end Curtail
