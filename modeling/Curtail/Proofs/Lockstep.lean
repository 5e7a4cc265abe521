/-
# Two parses side by side

One grammar is run twice, by two engines or from two sessions, and the second
run answers what the first does. What may differ between the two is only what
sequences look at: the sessions, the depths, and which identities were refused.
A lockstep says how these are related; whatever it relates is kept by all
combinators but the sequence, which has to be dealt with for each lockstep.

Depths belong to the place they were counted at, so they are related at a
reader. How much they must agree may be weighed against the fuel of the first
run.

Key definitions: `Lockstep`, `Lockstep.Outcomes`, `Lockstep.Follows`.
Key theorems: `Lockstep.walk_follows`, `Lockstep.cycle_follows`,
`Lockstep.runBy_follows`.
-/
import Curtail.Proofs.Engine
import Curtail.Proofs.Identity
import Curtail.Proofs.Members

namespace Curtail

/-- How two runs of a grammar are related. Both are called at the readers in `At` and go on from
there to readers that `Leads` relates. -/
structure Lockstep where
  At : Reader → Prop
  Leads : Reader → Reader → Prop
  Sessions : Session → Session → Prop
  Depths : Nat → Reader → Tally → Session → Tally → Session → Prop
  Cuts : IdSet → IdSet → Prop
  leads_refl : ∀ r, Leads r r
  leads_trans : ∀ {r r' r''}, Leads r r' → Leads r' r'' → Leads r r''
  countCall : ∀ {s s'}, Sessions s s' → Sessions s.countCall s'.countCall
  grow : ∀ {n r d s d' s' t t'}, Depths n r d s d' s' → s.Grows t → s'.Grows t' →
    Depths n r d t d' t'
  next : ∀ {n r d s d' s' r'}, Depths n r d s d' s' → At r → At r' → Leads r r' →
    Depths n r' (Run.depthsAfter d r r') s (Run.depthsAfter d' r r') s'
  lower : ∀ {n r d s d' s'}, Depths (n + 1) r d s d' s' → Depths n r d s d' s'
  cuts_empty : Cuts ∅ ∅
  cuts_append : ∀ {a a' b b'}, Cuts a a' → Cuts b b' → Cuts (a ++ b) (a' ++ b')
  cuts_isEmpty : ∀ {a a'}, Cuts a a' → a'.isEmpty = a.isEmpty

namespace Lockstep

variable (L : Lockstep)

/-- The same matches and the same fault, and refusals that are related. -/
structure Outcomes (r : Reader) (out out' : Outcome) : Prop where
  results : out'.results = out.results
  fault : out'.fault = out.fault
  cuts : L.Cuts out.curtailed out'.curtailed
  leads : ∀ m ∈ out.results.items, L.At m.reader ∧ L.Leads r m.reader

/-- Two calls at `r` that came to related ends. -/
structure After (r : Reader) (s s' : Session) (out : Outcome) (t : Session) (out' : Outcome)
    (t' : Session) : Prop where
  grows : s.Grows t
  grows' : s'.Grows t'
  sessions : L.Sessions t t'
  outcomes : L.Outcomes r out out'

/-- What `p` answers, `q` answers too, called in the same place with related depths from related
sessions. -/
def Follows (n : Nat) (p q : Run) : Prop :=
  ∀ ⦃d r s d' s' out t⦄, L.At r → L.Depths n r d s d' s' → L.Sessions s s' →
    p d r s = some (out, t) → ∃ out' t', q d' r s' = some (out', t') ∧ L.After r s s' out t out' t'

/-- The same sequence of parts, each of them followed by its counterpart. -/
structure Steps (n : Nat) (a b : Run.Steps) : Prop where
  part : ∀ i, (a.part i = none ∧ b.part i = none) ∨
    ∃ p q, a.part i = some p ∧ b.part i = some q ∧ L.Follows n p q
  name : b.name = a.name
  accepts : b.accepts = a.accepts
  build : b.build = a.build

variable {L}

/-! ### Outcomes -/

namespace Outcomes

variable {r : Reader} {out out' rest rest' : Outcome}

/-- If the same was refused too, it is one outcome. -/
theorem eq (h : L.Outcomes r out out') (hcuts : out'.curtailed = out.curtailed) : out' = out := by
  obtain ⟨results, fault, curtailed⟩ := out
  obtain ⟨results', fault', curtailed'⟩ := out'
  obtain rfl : results' = results := h.results
  obtain rfl : fault' = fault := h.fault
  obtain rfl : curtailed' = curtailed := hcuts
  rfl

theorem isMatch (h : L.Outcomes r out out') : out'.isMatch = out.isMatch := by
  unfold Outcome.isMatch
  rw [h.results]

theorem append (h : L.Outcomes r out out') (hrest : L.Outcomes r rest rest') :
    L.Outcomes r (out ++ rest) (out' ++ rest') where
  results := by
    show out'.results ++ rest'.results = out.results ++ rest.results
    rw [h.results, hrest.results]
  fault := by
    show Fault.furthest out'.fault rest'.fault = Fault.furthest out.fault rest.fault
    rw [h.fault, hrest.fault]
  cuts := L.cuts_append h.cuts hrest.cuts
  leads m hm := (Ascending.mem_merge hm).elim (h.leads m) (hrest.leads m)

/-- What is reported besides matches. -/
theorem reports {fault fault' : Option Fault} {cuts cuts' : IdSet} (hfault : fault' = fault)
    (hcuts : L.Cuts cuts cuts') : L.Outcomes r (.reports fault cuts) (.reports fault' cuts') :=
  ⟨rfl, hfault, hcuts, fun m hm => by cases hm⟩

theorem empty : L.Outcomes r ∅ ∅ := ⟨rfl, rfl, L.cuts_empty, fun m hm => by cases hm⟩

theorem failed (f : Fault) : L.Outcomes r (.failed f) (.failed f) :=
  ⟨rfl, rfl, L.cuts_empty, fun m hm => by cases hm⟩

theorem matched {m : Match} (hat : L.At m.reader) (hleads : L.Leads r m.reader) :
    L.Outcomes r (.matched m) (.matched m) :=
  ⟨rfl, rfl, L.cuts_empty, fun m' hm' => by rw [List.mem_singleton.mp hm']; exact ⟨hat, hleads⟩⟩

/-- What leads from a reader leads from every reader before. -/
theorem before {r' : Reader} (h : L.Outcomes r' out out') (hleads : L.Leads r r') :
    L.Outcomes r out out' :=
  ⟨h.results, h.fault, h.cuts, fun m hm => ⟨(h.leads m hm).1, L.leads_trans hleads (h.leads m hm).2⟩⟩

theorem atEnd (h : L.Outcomes r out out') : L.Outcomes r (Run.atEnd out) (Run.atEnd out') where
  results := by
    show Run.complete out'.results = Run.complete out.results
    rw [h.results]
  fault := by
    simp only [Run.atEnd]
    rw [h.results, h.fault]
  cuts := h.cuts
  leads m hm := h.leads m (List.mem_filter.mp hm).1

theorem withEmpty (token : String) (hr : L.At r) (h : L.Outcomes r out out') :
    L.Outcomes r (Run.withEmpty token r out) (Run.withEmpty token r out') := by
  simp only [Run.withEmpty]
  rw [h.isMatch]
  split
  · exact h
  · refine ⟨?_, h.fault, h.cuts, fun m hm => ?_⟩
    · show out'.results.insert _ = out.results.insert _
      rw [h.results]
    · rcases Ascending.mem_merge hm with hm | hm
      · exact h.leads m hm
      · rw [List.mem_singleton.mp hm]
        exact ⟨hr, L.leads_refl r⟩

end Outcomes

namespace After

variable {r : Reader} {s s' t t' : Session} {out out' : Outcome}

/-- An outcome that is ready without a call. -/
theorem now (hs : L.Sessions s s') (hout : L.Outcomes r out out') :
    L.After r s s' out s out' s' :=
  ⟨.refl s, .refl s', hs, hout⟩

/-- A call is counted first. -/
theorem counted (h : L.After r s.countCall s'.countCall out t out' t') :
    L.After r s s' out t out' t' :=
  ⟨h.grows, h.grows', h.sessions, h.outcomes⟩

/-- One call after another, their outcomes joined in some way. -/
theorem andThen {u u' : Session} {rest rest' all all' : Outcome}
    (h : L.After r s s' out t out' t') (hrest : L.After r t t' rest u rest' u')
    (hall : L.Outcomes r all all') : L.After r s s' all u all' u' :=
  ⟨h.grows.trans hrest.grows, h.grows'.trans hrest.grows', hrest.sessions, hall⟩

end After

/-! ### Combinators -/

variable {n : Nat}

theorem countCall_depths {r : Reader} {d d' : Tally} {s s' : Session}
    (h : L.Depths n r d s d' s') : L.Depths n r d s.countCall d' s'.countCall :=
  L.grow h (.refl s) (.refl s')

/-- What is done for some matches in turn. Sessions grow on the way from `s₀` and `s₀'`. -/
theorem gather_follows {f g : Match → Session → Option (Outcome × Session)} {r : Reader}
    {s₀ s₀' : Session} :
    ∀ {ms : List Match}, (∀ m ∈ ms, ∀ ⦃s s' out t⦄, s₀.Grows s → s₀'.Grows s' → L.Sessions s s' →
        f m s = some (out, t) → ∃ out' t', g m s' = some (out', t') ∧ L.After r s s' out t out' t') →
      ∀ {s s' out t}, s₀.Grows s → s₀'.Grows s' → L.Sessions s s' →
        Run.gather f ms s = some (out, t) →
        ∃ out' t', Run.gather g ms s' = some (out', t') ∧ L.After r s s' out t out' t'
  | [], _, s, s', out, t, _, _, hs, h => by
    cases h
    exact ⟨∅, s', rfl, .now hs .empty⟩
  | m :: ms, hfg, s, s', out, t, hgrows, hgrows', hs, h => by
    obtain ⟨a, s₁, b, s₂, ha, hb, heq⟩ := Run.gather_cons_eq_some.mp h
    cases heq
    obtain ⟨a', s₁', ha', hA⟩ := hfg m List.mem_cons_self hgrows hgrows' hs ha
    obtain ⟨b', s₂', hb', hB⟩ := gather_follows (fun m' hm' => hfg m' (List.mem_cons_of_mem m hm'))
      (hgrows.trans hA.grows) (hgrows'.trans hA.grows') hA.sessions hb
    exact ⟨a' ++ b', s₂', Run.gather_cons_eq_some.mpr ⟨a', s₁', b', s₂', ha', hb', rfl⟩,
      hA.andThen hB (hA.outcomes.append hB.outcomes)⟩

theorem choice_follows {α : Type} {f g : α → Run} :
    ∀ {as : List α}, (∀ a ∈ as, L.Follows n (f a) (g a)) →
      L.Follows n (Run.choice (as.map f)) (Run.choice (as.map g))
  | [], _, d, r, s, d', s', out, t, _, _, hs, h => by
    cases h
    exact ⟨∅, s', rfl, .now hs .empty⟩
  | a :: as, hfg, d, r, s, d', s', out, t, hr, hd, hs, h => by
    obtain ⟨x, s₁, hx, hrest⟩ := Run.choice_cons_eq_some.mp h
    obtain ⟨x', s₁', hx', hX⟩ := hfg a List.mem_cons_self hr (countCall_depths hd) (L.countCall hs) hx
    have hmatch := hX.outcomes.isMatch
    rcases hrest with ⟨hm, heq⟩ | ⟨hm, y, s₂, hy, heq⟩
    · cases heq
      exact ⟨x', s₁', Run.choice_cons_eq_some.mpr ⟨x', s₁', hx', .inl ⟨hmatch.trans hm, rfl⟩⟩,
        hX.counted⟩
    · cases heq
      obtain ⟨y', s₂', hy', hY⟩ := choice_follows
        (fun b hb => hfg b (List.mem_cons_of_mem a hb)) hr (L.grow hd hX.grows hX.grows')
        hX.sessions hy
      refine ⟨x' ++ y', s₂', Run.choice_cons_eq_some.mpr
        ⟨x', s₁', hx', .inr ⟨hmatch.trans hm, y', s₂', hy', rfl⟩⟩, ?_⟩
      exact hX.counted.andThen hY (hX.outcomes.append hY.outcomes)

section Walks

variable {a b : Run.Steps} {k : Nat} {nodes : List Node} {r : Reader}

theorem Steps.finishIf (h : L.Steps n a b) (hr : L.At r) :
    L.Outcomes r (a.finishIf r k nodes) (b.finishIf r k nodes) := by
  simp only [Run.Steps.finishIf, Run.Steps.finish, h.accepts, h.build]
  split
  · exact .matched hr (L.leads_refl r)
  · exact .empty

theorem Steps.faultAt (h : L.Steps n a b) {out out' : Outcome} (hout : L.Outcomes r out out') :
    b.faultAt r k out' = a.faultAt r k out := by
  simp only [Run.Steps.faultAt, h.accepts, h.name, hout.isMatch, hout.fault,
    L.cuts_isEmpty hout.cuts]

/-- A walk follows a walk: the induction is on its fuel, and each match is gone on from in step. -/
theorem walk_follows (hab : L.Steps n a b) :
    ∀ {fuel : Nat} {d : Tally} {r : Reader} {k : Nat} {nodes : List Node} {s : Session} {d' : Tally}
      {s' : Session} {out : Outcome} {t : Session}, L.At r → L.Depths n r d s d' s' →
      L.Sessions s s' → Run.walk a fuel d r k nodes s = some (out, t) →
      ∃ out' t', Run.walk b fuel d' r k nodes s' = some (out', t') ∧ L.After r s s' out t out' t'
  | 0, _, _, _, _, _, _, _, _, _, _, _, _, h => by cases h
  | fuel + 1, d, r, k, nodes, s, d', s', out, t, hr, hd, hs, h => by
    have hend : L.Outcomes r (a.finishIf r k nodes) (b.finishIf r k nodes) := hab.finishIf hr
    rcases Run.walk_succ_eq_some.mp h with ⟨hk, heq⟩ | ⟨p, x, s₁, y, s₂, hk, hp, hy, heq⟩
    · cases heq
      rcases hab.part k with ⟨-, hb⟩ | ⟨_, _, ha, -⟩
      · exact ⟨_, s', Run.walk_succ_eq_some.mpr (.inl ⟨hb, rfl⟩), .now hs hend⟩
      · rw [hk] at ha; cases ha
    · cases heq
      rcases hab.part k with ⟨ha, -⟩ | ⟨p', q, ha, hb, hpq⟩
      · rw [hk] at ha; cases ha
      · obtain rfl : p = p' := by rw [hk] at ha; exact Option.some.inj ha
        obtain ⟨x', s₁', hx', hX⟩ := hpq hr hd hs hp
        obtain ⟨y', s₂', hy', hY⟩ := gather_follows
          (f := Run.walkOn a fuel d r k nodes) (g := Run.walkOn b fuel d' r k nodes) (r := r)
          (fun m hm s s' out t hgrows hgrows' hs h => by
            obtain ⟨hat, hleads⟩ := hX.outcomes.leads m hm
            have hdepths := L.next (L.grow hd (hX.grows.trans hgrows) (hX.grows'.trans hgrows'))
              hr hat hleads
            obtain ⟨out', t', hx, hafter⟩ := walk_follows hab hat hdepths hs h
            exact ⟨out', t', hx, ⟨hafter.grows, hafter.grows', hafter.sessions,
              hafter.outcomes.before hleads⟩⟩)
          (.refl s₁) (.refl s₁') hX.sessions hy
        rw [← hX.outcomes.results] at hy'
        refine ⟨_, s₂', Run.walk_succ_eq_some.mpr (.inr ⟨q, x', s₁', y', s₂', hb, hx', hy', rfl⟩),
          hX.andThen hY ?_⟩
        have hreports := Outcomes.reports (r := r) (hab.faultAt (k := k) hX.outcomes)
          hX.outcomes.cuts
        exact (hreports.append hY.outcomes).append hend

end Walks

section Cycles

variable {b : Run.Bounds} {p q : Run}

theorem finish_follows {r : Reader} (hr : L.At r) (nodes : List Node) (count : Nat) :
    L.Outcomes r (b.finish r nodes count) (b.finish r nodes count) := by
  unfold Run.Bounds.finish
  split
  · exact .empty
  · exact .matched hr (L.leads_refl r)

theorem cycle_follows (hpq : L.Follows n p q) :
    ∀ {fuel : Nat} {d : Tally} {r : Reader} {nodes : List Node} {count : Nat} {stalled : Bool}
      {s : Session} {d' : Tally} {s' : Session} {out : Outcome} {t : Session}, L.At r →
      L.Depths n r d s d' s' → L.Sessions s s' →
      Run.cycle b p fuel d r nodes count stalled s = some (out, t) →
      ∃ out' t', Run.cycle b q fuel d' r nodes count stalled s' = some (out', t') ∧
        L.After r s s' out t out' t'
  | 0, _, _, _, _, _, _, _, _, _, _, _, _, _, h => by cases h
  | fuel + 1, d, r, nodes, count, stalled, s, d', s', out, t, hr, hd, hs, h => by
    rcases Run.cycle_succ_eq_some.mp h with ⟨hfull, heq⟩ | ⟨hfull, x, s₁, hx, hrest⟩
    · cases heq
      exact ⟨_, s', Run.cycle_succ_eq_some.mpr (.inl ⟨hfull, rfl⟩),
        .now hs (finish_follows hr nodes count)⟩
    · obtain ⟨x', s₁', hx', hX⟩ := hpq hr hd hs hx
      have hmatch := hX.outcomes.isMatch
      have hreports := Outcomes.reports (r := r) hX.outcomes.fault hX.outcomes.cuts
      rcases hrest with ⟨hm, heq⟩ | ⟨hm, y, s₂, hy, heq⟩
      · cases heq
        refine ⟨_, s₁', Run.cycle_succ_eq_some.mpr
          (.inr ⟨hfull, x', s₁', hx', .inl ⟨hmatch.trans hm, rfl⟩⟩), ?_⟩
        exact ⟨hX.grows, hX.grows', hX.sessions, hreports.append (finish_follows hr nodes count)⟩
      · cases heq
        have hon : ∀ m ∈ x.results.items, ∀ ⦃s s' out t⦄, s₁.Grows s → s₁'.Grows s' →
            L.Sessions s s' → Run.cycleOn b p fuel d r nodes count stalled m s = some (out, t) →
            ∃ out' t', Run.cycleOn b q fuel d' r nodes count stalled m s' = some (out', t') ∧
              L.After r s s' out t out' t' := by
          intro m hm s s' out t hgrows hgrows' hs h
          obtain ⟨hat, hleads⟩ := hX.outcomes.leads m hm
          have hdepths := L.next (L.grow hd (hX.grows.trans hgrows) (hX.grows'.trans hgrows'))
            hr hat hleads
          have hback : ∀ {out' t'}, L.After m.reader s s' out t out' t' →
              L.After r s s' out t out' t' := fun hafter =>
            ⟨hafter.grows, hafter.grows', hafter.sessions, hafter.outcomes.before hleads⟩
          unfold Run.cycleOn at h ⊢
          by_cases hlt : r.cursor.offset < m.stopOffset
          · rw [if_pos hlt] at h ⊢
            simp only [Run.depthsAfter, show r.cursor.offset < m.reader.cursor.offset from hlt,
              if_true] at hdepths
            obtain ⟨out', t', hx, hafter⟩ := cycle_follows hpq hat hdepths hs h
            exact ⟨out', t', hx, hback hafter⟩
          · rw [if_neg hlt] at h ⊢
            simp only [Run.depthsAfter, show ¬ r.cursor.offset < m.reader.cursor.offset from hlt,
              if_false] at hdepths
            by_cases hst : stalled
            · rw [if_pos hst] at h ⊢
              cases h
              exact ⟨_, s', rfl, hback (.now hs (finish_follows hat _ _))⟩
            · rw [if_neg hst] at h ⊢
              obtain ⟨out', t', hx, hafter⟩ := cycle_follows hpq hat hdepths hs h
              exact ⟨out', t', hx, hback hafter⟩
        obtain ⟨y', s₂', hy', hY⟩ := gather_follows hon (.refl s₁) (.refl s₁') hX.sessions hy
        rw [← hX.outcomes.results] at hy'
        refine ⟨_, s₂', Run.cycle_succ_eq_some.mpr
          (.inr ⟨hfull, x', s₁', hx', .inr ⟨hmatch.trans hm, y', s₂', hy', rfl⟩⟩), ?_⟩
        exact hX.andThen hY (hreports.append hY.outcomes)

end Cycles

theorem sentence_follows {p q : Run} (hpq : L.Follows n p q) :
    L.Follows n (Run.sentence p) (Run.sentence q) := by
  intro d r s d' s' out t hr hd hs h
  obtain ⟨x, s₁, hx, heq⟩ := Run.sentence_eq_some.mp h
  cases heq
  obtain ⟨x', s₁', hx', hX⟩ := hpq hr (countCall_depths hd) (L.countCall hs) hx
  exact ⟨_, s₁', Run.sentence_eq_some.mpr ⟨x', s₁', hx', rfl⟩,
    hX.grows, hX.grows', hX.sessions, hX.outcomes.atEnd⟩

theorem orEmpty_follows {p q : Run} (token : String) (hpq : L.Follows n p q) :
    L.Follows n (Run.orEmpty token p) (Run.orEmpty token q) := by
  intro d r s d' s' out t hr hd hs h
  obtain ⟨x, s₁, hx, heq⟩ := Run.orEmpty_eq_some.mp h
  cases heq
  obtain ⟨x', s₁', hx', hX⟩ := hpq hr hd hs hx
  exact ⟨_, s₁', Run.orEmpty_eq_some.mpr ⟨x', s₁', hx', rfl⟩,
    hX.grows, hX.grows', hX.sessions, hX.outcomes.withEmpty token hr⟩

/-! ### Grammars -/

variable {rules : Rules} {P : Parser → Prop} {engine engine' : Run.Engine}

theorem steps_follow (hP : rules.Closed P)
    (call : ∀ p, P p → L.Follows n (p.runBy rules engine n) (p.runBy rules engine' n)) {key : Key}
    {label : Option String} {build : Builder} {accepts : Nat → Bool} {lookup : Nat → Option Nat}
    {parts : List Parser} (hp : P (.sequence key label build accepts lookup parts)) :
    L.Steps n (Parser.stepsBy rules engine n build accepts lookup parts)
      (Parser.stepsBy rules engine' n build accepts lookup parts) := by
  refine ⟨fun i => ?_, rfl, rfl, rfl⟩
  simp only [Parser.stepsBy]
  cases hi : Parser.pick lookup parts i with
  | none => exact .inl ⟨rfl, rfl⟩
  | some q => exact .inr ⟨_, _, rfl, rfl, call q (hP.part hp (Parser.mem_of_pick hi))⟩

/-- **Two runs side by side.** If leaves agree with themselves and sequences keep step whenever their
parts do, the second engine answers all that the first does. -/
theorem runBy_follows (hP : rules.Closed P)
    (hterminal : ∀ {t r}, P (.terminal t) → L.At r → L.Outcomes r (t.read r) (t.read r))
    (hleaf : ∀ {l}, P (.leaf l) → ∃ f, l.Pure f ∧ ∀ {r}, L.At r → L.Outcomes r (f r) (f r))
    (hsequence : ∀ {n key label build accepts lookup parts},
      P (.sequence key label build accepts lookup parts) →
      (∀ p, P p → L.Follows n (p.runBy rules engine n) (p.runBy rules engine' n)) →
      L.Follows (n + 1)
        ((Parser.sequence key label build accepts lookup parts).runBy rules engine (n + 1))
        ((Parser.sequence key label build accepts lookup parts).runBy rules engine' (n + 1)))
    (n : Nat) : ∀ p, P p → L.Follows n (p.runBy rules engine n) (p.runBy rules engine' n) := by
  induction n with
  | zero => intro p _ d r s d' s' out t _ _ _ h; cases h
  | succ n ih =>
    have lower : ∀ {p q : Run}, L.Follows n p q → L.Follows (n + 1) p q :=
      fun hpq d r s d' s' out t hr hd hs h => hpq hr (L.lower hd) hs h
    intro p hp
    cases p with
    | terminal t =>
      intro d r s d' s' out u hr _ hs h
      cases h
      exact ⟨t.read r, s'.countCall, rfl, .counted (.now (L.countCall hs) (hterminal hp hr))⟩
    | leaf l =>
      intro d r s d' s' out t hr _ hs h
      obtain ⟨f, hpure, hf⟩ := hleaf hp
      have hl : ∀ d s, (Parser.leaf l).runBy rules engine (n + 1) d r s = some (f r, s.countCall) :=
        fun d s => congrArg some (hpure d r s.countCall)
      rw [hl] at h
      cases h
      exact ⟨f r, s'.countCall, congrArg some (hpure d' r s'.countCall),
        .counted (.now (L.countCall hs) (hf hr))⟩
    | choice name ps =>
      exact lower (choice_follows fun q hq => ih q (hP.part hp hq))
    | sequence key label build accepts lookup parts => exact hsequence hp ih
    | repetition b q =>
      refine lower fun d r s d' s' out t hr hd hs h => ?_
      obtain ⟨out', t', hx, hafter⟩ := cycle_follows (ih q (hP.part hp (List.mem_singleton_self q)))
        hr (countCall_depths hd) (L.countCall hs) h
      exact ⟨out', t', hx, hafter.counted⟩
    | sentence q => exact lower (sentence_follows (ih q (hP.part hp (List.mem_singleton_self q))))
    | orEmpty token q =>
      exact lower (orEmpty_follows token (ih q (hP.part hp (List.mem_singleton_self q))))
    | rule h =>
      rw [Parser.runBy_rule, Parser.runBy_rule]
      cases hstate : rules.state h.id with
      | defined q => exact lower (ih q (hP.rule hp hstate))
      | undefined | dropped =>
        intro d r s d' s' out t _ _ hs h
        cases h
        exact ⟨_, s', rfl, .now hs (.failed _)⟩

end Lockstep

end Curtail
