/-
# Runs that find one match

A run that finds at most one match at a reader can be followed step by step: a
sequence of such runs is one trail from reader to reader, a repetition goes
round as long as it reads on. What sessions have in common before and after is
a relation that every call keeps.

Under plain recursive descent nothing else matters, neither sessions nor
depths, so what a parser finds is settled by what its parts find.

Key definitions: `Run.Finds`, `Run.Trail`, `Run.Laps`, `Run.Steps.Remain`,
`Parser.Reaches`.
Key theorems: `Run.walk_trail`, `Run.cycle_laps`, `Parser.reaches_choice_cons`,
`Parser.reaches_sequence`, `Parser.reaches_repetition`.
-/
import Curtail.Grammar.Draft
import Curtail.Proofs.Fuel

namespace Curtail

namespace Outcome

theorem items_reports_append (fault : Option Fault) (curtailed : IdSet) (out : Outcome) :
    (reports fault curtailed ++ out).results = out.results := rfl

end Outcome

namespace Run

/-- A relation between a session before and after calls. -/
structure Kind (R : Session → Session → Prop) : Prop where
  refl : ∀ s, R s s
  trans : ∀ {s s' s''}, R s s' → R s' s'' → R s s''
  countCall : ∀ s, R s s.countCall

/-- Called at `r` the run finds one match, or none, whatever the depths and the session are. -/
def Finds (R : Session → Session → Prop) (p : Run) (r : Reader) (m? : Option Match) : Prop :=
  ∀ d s, ∃ out s', p d r s = some (out, s') ∧ out.results.items = m?.toList ∧ R s s'

/-- One match of each run after the other: their nodes and the reader after them, or nothing if one of
the runs finds no match. -/
inductive Trail (R : Session → Session → Prop) :
    List Run → Reader → Option (List Node × Reader) → Prop
  | nil {r : Reader} : Trail R [] r (some ([], r))
  | stop {p : Run} {ps : List Run} {r : Reader} : Finds R p r none → Trail R (p :: ps) r none
  | go {p : Run} {ps : List Run} {r : Reader} {m : Match} {x : Option (List Node × Reader)} :
    Finds R p r (some m) → Trail R ps m.reader x →
      Trail R (p :: ps) r (x.map fun y => (m.node.toList ++ y.1, y.2))

/-- The run again and again, each time reading on, until it finds nothing: the nodes, how many times,
and the reader after them. -/
inductive Laps (R : Session → Session → Prop) (p : Run) : Reader → List Node → Nat → Reader → Prop
  | stop {r : Reader} : Finds R p r none → Laps R p r [] 0 r
  | lap {r r' : Reader} {m : Match} {nodes : List Node} {k : Nat} :
    Finds R p r (some m) → r.cursor.offset < m.stopOffset → Laps R p m.reader nodes k r' →
      Laps R p r (m.node.toList ++ nodes) (k + 1) r'

variable {R : Session → Session → Prop}

theorem gather_singleton {f : Match → Session → Option (Outcome × Session)} {m : Match}
    {s s' : Session} {out : Outcome} (h : f m s = some (out, s')) :
    gather f [m] s = some (out, s') :=
  gather_cons_eq_some.mpr ⟨out, s', ∅, s', h, rfl, by rw [Outcome.append_empty]⟩

/-- The first alternative that finds a match is taken. -/
theorem finds_choice_cons (hR : Kind R) {p : Run} {ps : List Run} {r : Reader} {x y : Option Match}
    (hp : Finds R p r x) (hps : Finds R (choice ps) r y) :
    Finds R (choice (p :: ps)) r (x.or y) := by
  intro d s
  obtain ⟨a, s₁, ha, hitems, hs₁⟩ := hp d s.countCall
  cases x with
  | some m =>
    have hmatch : a.isMatch = true := by simp [Outcome.isMatch, Ascending.isEmpty, hitems]
    exact ⟨a, s₁, choice_cons_eq_some.mpr ⟨a, s₁, ha, .inl ⟨hmatch, rfl⟩⟩, hitems,
      hR.trans (hR.countCall s) hs₁⟩
  | none =>
    have hmatch : a.isMatch = false := by simp [Outcome.isMatch, Ascending.isEmpty, hitems]
    obtain ⟨b, s₂, hb, hbitems, hs₂⟩ := hps d s₁
    refine ⟨a ++ b, s₂, choice_cons_eq_some.mpr ⟨a, s₁, ha, .inr ⟨hmatch, b, s₂, hb, rfl⟩⟩, ?_,
      hR.trans (hR.countCall s) (hR.trans hs₁ hs₂)⟩
    have hempty : a.results = ∅ := Ascending.ext (Outcome.items_eq_nil hmatch)
    show (a.results ++ b.results).items = _
    rw [hempty, Ascending.empty_append, hbitems]
    rfl

/-- From index `k` on the parts are `ps`, and the sequence may end after all of them only. -/
structure Steps.Remain (steps : Steps) (k : Nat) (ps : List Run) : Prop where
  part : ∀ i, steps.part (k + i) = ps[i]?
  accepts : ∀ i, steps.accepts (k + i) = decide (i = ps.length)

section Remaining

variable {steps : Steps} {k : Nat} {p : Run} {ps : List Run}

/-- A sequence with no fewer and no more parts than it was given has all of them before it. -/
theorem Steps.remain_of_between (hpart : ∀ i, steps.part i = ps[i]?)
    (haccepts : steps.accepts = Draft.between ps.length ps.length) : steps.Remain 0 ps where
  part i := by rw [Nat.zero_add, hpart]
  accepts i := by
    rw [Nat.zero_add, haccepts, Draft.between, ← Bool.decide_and, decide_eq_decide]
    omega

theorem Steps.Remain.tail (h : steps.Remain k (p :: ps)) : steps.Remain (k + 1) ps where
  part i := by rw [Nat.add_right_comm, Nat.add_assoc, h.part, List.getElem?_cons_succ]
  accepts i := by
    rw [Nat.add_right_comm, Nat.add_assoc, h.accepts, List.length_cons]
    simp

theorem Steps.Remain.finishIf_nil (h : steps.Remain k []) (r : Reader) (nodes : List Node) :
    steps.finishIf r k nodes = steps.finish r nodes := by
  have : steps.accepts k = true := h.accepts 0
  simp [Steps.finishIf, this]

theorem Steps.Remain.finishIf_cons (h : steps.Remain k (p :: ps)) (r : Reader) (nodes : List Node) :
    steps.finishIf r k nodes = ∅ := by
  have : steps.accepts k = false := h.accepts 0
  simp [Steps.finishIf, this]

end Remaining

/-- A walk over runs that find one match each goes along their trail. -/
theorem walk_trail (hR : Kind R) {steps : Steps} {ps : List Run} {r : Reader}
    {x : Option (List Node × Reader)} (h : Trail R ps r x) :
    ∀ {fuel k : Nat} (d : Tally) (nodes : List Node) (s : Session), steps.Remain k ps →
      ps.length < fuel →
      ∃ out s', walk steps fuel d r k nodes s = some (out, s') ∧
        out.results.items =
          (x.map fun y => Match.mk (steps.build (nodes.reverse ++ y.1)) y.2).toList ∧ R s s' := by
  induction h with
  | nil =>
    intro fuel k d nodes s hremain hfuel
    obtain ⟨fuel, rfl⟩ := Nat.exists_eq_add_one.mpr hfuel
    refine ⟨_, s, walk_succ_eq_some.mpr (.inl ⟨hremain.part 0, rfl⟩), ?_, hR.refl s⟩
    rw [hremain.finishIf_nil]
    simp [Steps.finish, Outcome.matched]
  | @stop p ps r hp =>
    intro fuel k d nodes s hremain hfuel
    obtain ⟨fuel, rfl⟩ := Nat.exists_eq_add_one.mpr (Nat.zero_lt_of_lt hfuel)
    obtain ⟨a, s₁, ha, hitems, hs₁⟩ := hp d s
    have hgather : gather (walkOn steps fuel d r k nodes) a.results.items s₁ = some (∅, s₁) := by
      rw [hitems]
      rfl
    refine ⟨_, s₁,
      walk_succ_eq_some.mpr (.inr ⟨p, a, s₁, ∅, s₁, hremain.part 0, ha, hgather, rfl⟩), ?_, hs₁⟩
    rw [hremain.finishIf_cons, Outcome.append_empty, Outcome.append_empty]
    rfl
  | @go p ps r m x hp _ ih =>
    intro fuel k d nodes s hremain hfuel
    obtain ⟨fuel, rfl⟩ := Nat.exists_eq_add_one.mpr (Nat.zero_lt_of_lt hfuel)
    obtain ⟨a, s₁, ha, hitems, hs₁⟩ := hp d s
    obtain ⟨b, s₂, hb, hbitems, hs₂⟩ := ih (depthsAfter d r m.reader) (m.node.toList ++ nodes) s₁
      hremain.tail (by simpa using hfuel)
    have hgather : gather (walkOn steps fuel d r k nodes) a.results.items s₁ = some (b, s₂) := by
      rw [hitems]
      exact gather_singleton hb
    refine ⟨_, s₂,
      walk_succ_eq_some.mpr (.inr ⟨p, a, s₁, b, s₂, hremain.part 0, ha, hgather, rfl⟩), ?_,
      hR.trans hs₁ hs₂⟩
    rw [hremain.finishIf_cons, Outcome.append_empty, Outcome.items_reports_append, hbitems,
      reverse_toList_append]
    simp [Function.comp_def]

/-- A repetition without bounds goes round until nothing is found. -/
theorem cycle_laps (hR : Kind R) {b : Bounds} (hleast : b.least = 0) (hmost : b.most = none)
    {p : Run} {r r' : Reader} {ns : List Node} {k : Nat} (h : Laps R p r ns k r') :
    ∀ {fuel count : Nat} (d : Tally) (nodes : List Node) (stalled : Bool) (s : Session), k < fuel →
      ∃ out s', cycle b p fuel d r nodes count stalled s = some (out, s') ∧
        out.results.items =
          [⟨if count + k = 0 then none else b.build (nodes.reverse ++ ns), r'⟩] ∧ R s s' := by
  have hfull : ∀ count, b.full count = false := fun count => by simp [Bounds.full, hmost]
  induction h with
  | @stop r hp =>
    intro fuel count d nodes stalled s hfuel
    obtain ⟨fuel, rfl⟩ := Nat.exists_eq_add_one.mpr hfuel
    obtain ⟨a, s₁, ha, hitems, hs₁⟩ := hp d s
    have hmatch : a.isMatch = false := by simp [Outcome.isMatch, Ascending.isEmpty, hitems]
    refine ⟨_, s₁, cycle_succ_eq_some.mpr (.inr ⟨hfull count, a, s₁, ha, .inl ⟨hmatch, rfl⟩⟩), ?_, hs₁⟩
    rw [Outcome.items_reports_append]
    simp [Bounds.finish, hleast, Outcome.matched]
  | @lap r r' m ns k hp hlt _ ih =>
    intro fuel count d nodes stalled s hfuel
    obtain ⟨fuel, rfl⟩ := Nat.exists_eq_add_one.mpr (Nat.zero_lt_of_lt hfuel)
    obtain ⟨a, s₁, ha, hitems, hs₁⟩ := hp d s
    have hmatch : a.isMatch = true := by simp [Outcome.isMatch, Ascending.isEmpty, hitems]
    obtain ⟨c, s₂, hc, hcitems, hs₂⟩ := @ih fuel (count + 1) .zero
      (m.node.toList ++ nodes) false s₁ (by omega)
    have hgather : gather (cycleOn b p fuel d r nodes count stalled) a.results.items s₁ =
        some (c, s₂) := by
      rw [hitems]
      refine gather_singleton ?_
      rw [cycleOn, if_pos hlt]
      exact hc
    refine ⟨_, s₂, cycle_succ_eq_some.mpr
      (.inr ⟨hfull count, a, s₁, ha, .inr ⟨hmatch, c, s₂, hgather, rfl⟩⟩), ?_, hR.trans hs₁ hs₂⟩
    rw [Outcome.items_reports_append, hcitems, reverse_toList_append, List.append_assoc,
      Nat.add_right_comm, Nat.add_assoc]

theorem finds_sentence (hR : Kind R) {p : Run} {r : Reader} {x : Option Match}
    (hp : Finds R p r x) : Finds R (sentence p) r (x.filter (·.reader.atEnd)) := by
  intro d s
  obtain ⟨a, s₁, ha, hitems, hs₁⟩ := hp d s.countCall
  refine ⟨_, s₁, sentence_eq_some.mpr ⟨a, s₁, ha, rfl⟩, ?_, hR.trans (hR.countCall s) hs₁⟩
  show a.results.items.filter (·.reader.atEnd) = _
  rw [hitems]
  cases x with
  | none => rfl
  | some m =>
    cases hend : m.reader.atEnd <;> simp [Option.filter, hend]

theorem finds_orEmpty {token : String} {p : Run} {r : Reader} {x : Option Match}
    (hp : Finds R p r x) :
    Finds R (orEmpty token p) r (some (x.getD ⟨some (.emptyGroup token r.cursor none), r⟩)) := by
  intro d s
  obtain ⟨a, s₁, ha, hitems, hs₁⟩ := hp d s
  refine ⟨_, s₁, orEmpty_eq_some.mpr ⟨a, s₁, ha, rfl⟩, ?_, hs₁⟩
  rw [items_withEmpty]
  cases x with
  | some m =>
    have hmatch : a.isMatch = true := by simp [Outcome.isMatch, Ascending.isEmpty, hitems]
    rw [if_pos hmatch, hitems]
    rfl
  | none =>
    have hmatch : a.isMatch = false := Outcome.isMatch_eq_false_iff.mpr hitems
    rw [if_neg (by simp [hmatch])]
    rfl

end Run

/-! ### Plain descent -/

namespace Parser

variable {rules : Rules} {p q : Parser} {r : Reader}

/-- Two sessions of any kind. -/
theorem kind_any : Run.Kind fun _ _ => True := ⟨fun _ => trivial, fun _ _ => trivial, fun _ => trivial⟩

/-- Plain descent of `p` comes to an end at `r` and finds one match, or none. -/
def Reaches (rules : Rules) (p : Parser) (r : Reader) (m? : Option Match) : Prop :=
  ∃ n₀, ∀ n, n₀ ≤ n → Run.Finds (fun _ _ => True) (p.descend rules n) r m?

/-- Plain descent of some parsers, one after the other. -/
def Trail (rules : Rules) (ps : List Parser) (r : Reader) (x : Option (List Node × Reader)) : Prop :=
  ∃ n₀, ∀ n, n₀ ≤ n → Run.Trail (fun _ _ => True) (ps.map (descend rules n)) r x

/-- Plain descent of a parser again and again. -/
def Laps (rules : Rules) (p : Parser) (r : Reader) (nodes : List Node) (k : Nat) (r' : Reader) :
    Prop :=
  ∃ n₀, ∀ n, n₀ ≤ n → Run.Laps (fun _ _ => True) (p.descend rules n) r nodes k r'

theorem Trail.nil : Trail rules [] r (some ([], r)) := ⟨0, fun _ _ => .nil⟩

theorem Trail.stop {ps : List Parser} (h : Reaches rules p r none) : Trail rules (p :: ps) r none := by
  obtain ⟨n₀, hn⟩ := h
  exact ⟨n₀, fun n hle => .stop (hn n hle)⟩

theorem Trail.go {ps : List Parser} {m : Match} {x : Option (List Node × Reader)}
    (h : Reaches rules p r (some m)) (hps : Trail rules ps m.reader x) :
    Trail rules (p :: ps) r (x.map fun y => (m.node.toList ++ y.1, y.2)) := by
  obtain ⟨n₀, hn⟩ := h
  obtain ⟨n₁, hn'⟩ := hps
  exact ⟨n₀ + n₁, fun n hle => .go (hn n (by omega)) (hn' n (by omega))⟩

theorem Laps.stop (h : Reaches rules p r none) : Laps rules p r [] 0 r := by
  obtain ⟨n₀, hn⟩ := h
  exact ⟨n₀, fun n hle => .stop (hn n hle)⟩

theorem Laps.lap {m : Match} {nodes : List Node} {k : Nat} {r' : Reader}
    (h : Reaches rules p r (some m)) (hlt : r.cursor.offset < m.stopOffset)
    (hrest : Laps rules p m.reader nodes k r') :
    Laps rules p r (m.node.toList ++ nodes) (k + 1) r' := by
  obtain ⟨n₀, hn⟩ := h
  obtain ⟨n₁, hn'⟩ := hrest
  exact ⟨n₀ + n₁, fun n hle => .lap (hn n (by omega)) hlt (hn' n (by omega))⟩

theorem reaches_choice_nil (name : String) : Reaches rules (.choice name []) r none := by
  refine ⟨1, fun n hle d s => ?_⟩
  obtain ⟨n, rfl⟩ := Nat.exists_eq_add_one.mpr hle
  exact ⟨∅, s, rfl, rfl, trivial⟩

theorem reaches_choice_cons {name : String} {ps : List Parser} {x y : Option Match}
    (h : Reaches rules p r x) (hps : Reaches rules (.choice name ps) r y) :
    Reaches rules (.choice name (p :: ps)) r (x.or y) := by
  obtain ⟨n₀, hn⟩ := h
  obtain ⟨n₁, hn'⟩ := hps
  refine ⟨n₀ + n₁ + 1, fun n hle => ?_⟩
  obtain ⟨n, rfl⟩ := Nat.exists_eq_add_one.mpr (Nat.zero_lt_of_lt hle)
  exact Run.finds_choice_cons kind_any (hn n (by omega)) (hn' (n + 1) (by omega))

/-- A sequence of all its parts goes along their trail. -/
theorem reaches_sequence {key : Key} {label : Option String} {build : Builder} {ps : List Parser}
    {x : Option (List Node × Reader)} (h : Trail rules ps r x) :
    Reaches rules (.sequence key label build (Draft.between ps.length ps.length) some ps) r
      (x.map fun y => ⟨build y.1, y.2⟩) := by
  obtain ⟨n₀, hn⟩ := h
  refine ⟨n₀ + ps.length + 2, fun n hle d s => ?_⟩
  obtain ⟨n, rfl⟩ := Nat.exists_eq_add_one.mpr (Nat.zero_lt_of_lt hle)
  have hremain : (stepsBy rules Run.descent n build (Draft.between ps.length ps.length) some
      ps).Remain 0 (ps.map (descend rules n)) :=
    Run.Steps.remain_of_between (fun _ => List.getElem?_map.symm) (by rw [List.length_map]; rfl)
  obtain ⟨out, s', hx, hitems, -⟩ := Run.walk_trail kind_any (hn n (by omega))
    (d.inc (s.countCall.register key).1) [] (s.countCall.register key).2 hremain
    (show (ps.map (descend rules n)).length < n by rw [List.length_map]; omega)
  exact ⟨out, s', hx, hitems, trivial⟩

/-- A repetition without bounds goes round until nothing is found. -/
theorem reaches_repetition {build : Builder} {nodes : List Node} {k : Nat} {r' : Reader}
    (h : Laps rules p r nodes k r') :
    Reaches rules (.repetition ⟨0, none, build⟩ p) r
      (some ⟨if k = 0 then none else build nodes, r'⟩) := by
  obtain ⟨n₀, hn⟩ := h
  refine ⟨n₀ + k + 2, fun n hle d s => ?_⟩
  obtain ⟨n, rfl⟩ := Nat.exists_eq_add_one.mpr (Nat.zero_lt_of_lt hle)
  obtain ⟨out, s', hx, hitems, -⟩ := Run.cycle_laps kind_any (b := ⟨0, none, build⟩) rfl rfl
    (hn n (by omega)) d [] false s.countCall (show k < n by omega)
  rw [Nat.zero_add] at hitems
  exact ⟨out, s', hx, hitems, trivial⟩

theorem reaches_sentence {x : Option Match} (h : Reaches rules p r x) :
    Reaches rules (.sentence p) r (x.filter (·.reader.atEnd)) := by
  obtain ⟨n₀, hn⟩ := h
  refine ⟨n₀ + 1, fun n hle => ?_⟩
  obtain ⟨n, rfl⟩ := Nat.exists_eq_add_one.mpr (Nat.zero_lt_of_lt hle)
  exact Run.finds_sentence kind_any (hn n (by omega))

theorem reaches_orEmpty {token : String} {x : Option Match} (h : Reaches rules p r x) :
    Reaches rules (.orEmpty token p) r
      (some (x.getD ⟨some (.emptyGroup token r.cursor none), r⟩)) := by
  obtain ⟨n₀, hn⟩ := h
  refine ⟨n₀ + 1, fun n hle => ?_⟩
  obtain ⟨n, rfl⟩ := Nat.exists_eq_add_one.mpr (Nat.zero_lt_of_lt hle)
  exact Run.finds_orEmpty (hn n (by omega))

theorem reaches_rule {handle : Handle} (hdef : rules.state handle.id = .defined q)
    {x : Option Match} (h : Reaches rules q r x) : Reaches rules (.rule handle) r x := by
  obtain ⟨n₀, hn⟩ := h
  refine ⟨n₀ + 1, fun n hle => ?_⟩
  obtain ⟨n, rfl⟩ := Nat.exists_eq_add_one.mpr (Nat.zero_lt_of_lt hle)
  show Run.Finds _ ((Parser.rule handle).runBy rules Run.descent (n + 1)) r x
  rw [runBy_rule, hdef]
  exact hn n (by omega)

end Parser

end Curtail
