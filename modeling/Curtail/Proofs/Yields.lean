/-
# What the matches of a call have in common

A relation between a reader and the matches found from it holds of all matches
that a parser yields, if it holds of those of the leaves and is passed on by
every way of combining parsers. The induction goes through the memory: a
sequence also returns what it remembers, so a condition on the session has to
say that what is remembered is related too, and every call has to keep it.

The matches of a sequence come from chains of matches of its parts, and so do
those of a repetition.

Key definitions: `Run.Chain`, `Run.Yields`, `Rules.Respects`.
Key theorems: `Run.walk_yields`, `Run.cycle_yields`, `Parser.run_yields`.
-/
import Curtail.Proofs.Identity
import Curtail.Proofs.Inversion
import Curtail.Proofs.Members

namespace Curtail

theorem Outcome.mem_append {a b : Outcome} {m : Match} (h : m ∈ (a ++ b).results.items) :
    m ∈ a.results.items ∨ m ∈ b.results.items := Ascending.mem_merge h

namespace Run

/-- `k` matches from `r`, one after the other, `R i` relating the reader before match `i` with it;
their nodes and the reader after them. -/
inductive Chain (R : Nat → Reader → Match → Prop) (r : Reader) : Nat → List Node → Reader → Prop
  | nil : Chain R r 0 [] r
  | snoc {k : Nat} {nodes : List Node} {r' : Reader} {m : Match} :
    Chain R r k nodes r' → R k r' m → Chain R r (k + 1) (nodes ++ m.node.toList) m.reader

/-- A condition on sessions that does not depend on counts, further identities and the journal. -/
structure Kept (I : Session → Prop) : Prop where
  countCall : ∀ {s}, I s → I s.countCall
  register : ∀ {s} (key), I s → I (s.register key).2
  note : ∀ {s} (e), I s → I (s.note e)

/-- A property of all that is remembered is such a condition. -/
theorem kept_forall {Q : Nat → Nat → Match → Prop} :
    Kept fun s => ∀ id offset, ∀ m ∈ (s.memo.known id offset).items, Q id offset m where
  countCall h := h
  register {s} key h := Session.forall_of_known h (s.known_register key)
  note _ h := h

/-- The session grew and kept its condition, and all matches are as `R` says. -/
structure Yielded (I : Session → Prop) (R : Match → Prop) (s : Session) (out : Outcome)
    (s' : Session) : Prop where
  grows : s.Grows s'
  kept : I s'
  found : ∀ m ∈ out.results.items, R m

/-- Called at a reader in `At`, the run keeps the session's condition, and its matches are related
to that reader and end at readers in `At`. -/
def Yields (I : Session → Prop) (At : Reader → Prop) (p : Run) (R : Reader → Match → Prop) : Prop :=
  ∀ ⦃d r s out s'⦄, At r → I s → p d r s = some (out, s') →
    Yielded I (fun m => At m.reader ∧ R r m) s out s'

/-- What holds of a reader, and of the reader after each match from where it holds, holds of the
reader after a chain. -/
theorem Chain.reader_induction {R : Nat → Reader → Match → Prop} {r r' : Reader} {k : Nat}
    {nodes : List Node} (h : Chain R r k nodes r') {Q : Reader → Prop} (hr : Q r)
    (hR : ∀ i r m, R i r m → Q r → Q m.reader) : Q r' := by
  induction h with
  | nil => exact hr
  | snoc _ hm ih => exact hR _ _ _ hm ih

variable {I : Session → Prop} {At : Reader → Prop}

theorem Yielded.mono {R R' : Match → Prop} {s s' : Session} {out : Outcome}
    (h : Yielded I R s out s') (hR : ∀ m, R m → R' m) : Yielded I R' s out s' :=
  ⟨h.grows, h.kept, fun m hm => hR m (h.found m hm)⟩

theorem Yielded.append {R : Match → Prop} {s s₁ s₂ : Session} {a b : Outcome}
    (ha : Yielded I R s a s₁) (hb : Yielded I R s₁ b s₂) : Yielded I R s (a ++ b) s₂ where
  grows := ha.grows.trans hb.grows
  kept := hb.kept
  found m hm := by
    rcases Outcome.mem_append hm with hm | hm
    · exact ha.found m hm
    · exact hb.found m hm

/-- An outcome that is ready without a call. -/
theorem yielded_now {R : Match → Prop} {s : Session} {out : Outcome} (hs : I s)
    (hout : ∀ m ∈ out.results.items, R m) : Yielded I R s out s :=
  ⟨.refl s, hs, hout⟩

theorem mem_matched {m m' : Match} (h : m ∈ (Outcome.matched m').results.items) : m = m' := by
  simpa [Outcome.matched] using h

theorem gather_yields {f : Match → Session → Option (Outcome × Session)} {R : Match → Prop} :
    ∀ {ms : List Match}, (∀ m ∈ ms, ∀ ⦃s out s'⦄, I s → f m s = some (out, s') →
      Yielded I R s out s') → ∀ {s out s'}, I s → gather f ms s = some (out, s') →
      Yielded I R s out s'
  | [], _, s, out, s', hs, h => by
    cases h
    exact yielded_now hs fun m hm => by cases hm
  | m :: ms, hf, s, out, s', hs, h => by
    obtain ⟨a, s₁, b, s₂, ha, hb, heq⟩ := gather_cons_eq_some.mp h
    cases heq
    have h₁ := hf m List.mem_cons_self hs ha
    have h₂ := gather_yields (fun m' hm' => hf m' (List.mem_cons_of_mem _ hm')) h₁.kept hb
    exact h₁.append h₂

theorem choice_yields (hI : Kept I) {R : Reader → Match → Prop} :
    ∀ {ps : List Run}, (∀ p ∈ ps, Yields I At p R) → Yields I At (choice ps) R
  | [], _, d, r, s, out, s', _, hs, h => by
    cases h
    exact yielded_now hs fun m hm => by cases hm
  | p :: ps, hp, d, r, s, out, s', hr, hs, h => by
    obtain ⟨a, s₁, ha, hrest⟩ := choice_cons_eq_some.mp h
    have h₁ := hp p List.mem_cons_self hr (hI.countCall hs) ha
    rcases hrest with ⟨-, heq⟩ | ⟨-, b, s₂, hb, heq⟩
    · cases heq
      exact ⟨h₁.grows, h₁.kept, h₁.found⟩
    · cases heq
      have h₂ := choice_yields hI (fun q hq => hp q (List.mem_cons_of_mem _ hq)) hr h₁.kept hb
      exact Yielded.append ⟨h₁.grows, h₁.kept, h₁.found⟩ h₂

/-! ### Sequences -/

/-- The match of a chain of parts of a length that the sequence accepts. -/
def Chained (accepts : Nat → Bool) (build : Builder) (R : Nat → Reader → Match → Prop) (r : Reader)
    (m : Match) : Prop :=
  ∃ k nodes, Chain R r k nodes m.reader ∧ accepts k = true ∧ m.node = build nodes

theorem mem_finishIf {steps : Steps} {r : Reader} {k : Nat} {nodes : List Node} {m : Match}
    (h : m ∈ (steps.finishIf r k nodes).results.items) :
    steps.accepts k = true ∧ m = ⟨steps.build nodes.reverse, r⟩ := by
  unfold Steps.finishIf at h
  split at h
  · rename_i hk
    exact ⟨hk, mem_matched h⟩
  · cases h

/-- A walk yields matches of chains that start with the chain walked so far. -/
theorem walk_yields {steps : Steps} {R : Nat → Reader → Match → Prop}
    (hpart : ∀ i p, steps.part i = some p → Yields I At p (R i)) {r₀ : Reader} :
    ∀ {n : Nat} {d : Tally} {r : Reader} {k : Nat} {nodes : List Node} {s : Session}
      {out : Outcome} {s' : Session}, At r → I s → Chain R r₀ k nodes.reverse r →
      walk steps n d r k nodes s = some (out, s') →
      Yielded I (fun m => At m.reader ∧ Chained steps.accepts steps.build R r₀ m) s out s'
  | 0, _, _, _, _, _, _, _, _, _, _, h => by cases h
  | n + 1, d, r, k, nodes, s, out, s', hr, hs, hchain, h => by
    have hend : ∀ m ∈ (steps.finishIf r k nodes).results.items,
        At m.reader ∧ Chained steps.accepts steps.build R r₀ m := by
      intro m hm
      obtain ⟨hk, rfl⟩ := mem_finishIf hm
      exact ⟨hr, k, nodes.reverse, hchain, hk, rfl⟩
    rcases walk_succ_eq_some.mp h with ⟨-, heq⟩ | ⟨p, a, s₁, rest, s₂, hk, hp, hg, heq⟩
    · cases heq
      exact yielded_now hs hend
    · cases heq
      have h₁ := hpart k p hk hr hs hp
      have h₂ : Yielded I (fun m => At m.reader ∧ Chained steps.accepts steps.build R r₀ m) s₁ rest
          s' := by
        refine gather_yields (fun m hm s out s' hs h => ?_) h₁.kept hg
        obtain ⟨hat, hR⟩ := h₁.found m hm
        refine walk_yields hpart hat hs ?_ h
        rw [reverse_toList_append]
        exact hchain.snoc hR
      have hreport : Yielded I (fun m => At m.reader ∧ Chained steps.accepts steps.build R r₀ m) s
          (.reports (steps.faultAt r k a) a.curtailed) s₁ :=
        ⟨h₁.grows, h₁.kept, fun m hm => by cases hm⟩
      exact (hreport.append h₂).append (yielded_now h₂.kept hend)

/-- A sequence yields matches of chains of its parts, and what it remembers. -/
theorem sequence_yields (hI : Kept I) {n : Nat} {key : Key} {name : String} {steps : Steps}
    {R : Nat → Reader → Match → Prop} {Q : Reader → Match → Prop}
    (hpart : ∀ i p, steps.part i = some p → Yields I At p (R i))
    (hQ : ∀ r m, Chained steps.accepts steps.build R r m → Q r m)
    (hgrow : ∀ ⦃r s id found⦄, At r → I s → s.memo.idOf? key = some id →
      (∀ m ∈ Ascending.items found, At m.reader ∧ Q r m) →
      I (s.grow id r.cursor.offset found).2 ∧
        ∀ m ∈ (s.memo.known id r.cursor.offset).items, At m.reader ∧ Q r m) :
    Yields I At (sequence n key name steps) Q := by
  intro d r s out s' hr hs h
  have hs₀ : I (s.countCall.register key).2 := hI.register key (hI.countCall hs)
  have hg₀ := s.grows_register key
  rcases sequence_eq_some.mp h with ⟨-, heq⟩ | ⟨-, a, s₁, hw, heq⟩
  · cases heq
    exact ⟨hg₀, hI.note _ hs₀, fun m hm => by cases hm⟩
  · cases heq
    have hwalk := walk_yields hpart hr hs₀ .nil hw
    have hid := Memo.idOf?_mono hwalk.grows (s.idOf?_register key)
    have hfound : ∀ m ∈ a.results.items, At m.reader ∧ Q r m := fun m hm =>
      ⟨(hwalk.found m hm).1, hQ r m (hwalk.found m hm).2⟩
    obtain ⟨hkept, hknown⟩ := hgrow hr hwalk.kept hid hfound
    refine ⟨hg₀.trans hwalk.grows, hkept, fun m hm => ?_⟩
    rcases Ascending.mem_merge hm with hm | hm
    · exact hfound m hm
    · exact hknown m hm

/-! ### Repetitions -/

/-- The match of a chain of repetitions of a length within bounds. -/
def Repeated (b : Bounds) (R : Reader → Match → Prop) (r : Reader) (m : Match) : Prop :=
  ∃ k nodes, Chain (fun _ => R) r k nodes m.reader ∧ b.least ≤ k ∧
    (∀ most, b.most = some most → k ≤ most) ∧ m.node = if k = 0 then none else b.build nodes

theorem Bounds.full_eq_false {b : Bounds} {count : Nat} (h : b.full count = false) {most : Nat}
    (hm : b.most = some most) : count < most := by
  simpa [full, hm] using h

theorem mem_finish {b : Bounds} {r : Reader} {nodes : List Node} {count : Nat} {m : Match}
    (h : m ∈ (b.finish r nodes count).results.items) :
    b.least ≤ count ∧ m = ⟨if count = 0 then none else b.build nodes.reverse, r⟩ := by
  unfold Bounds.finish at h
  split at h
  · cases h
  · rename_i hc
    exact ⟨Nat.not_lt.mp hc, mem_matched h⟩

/-- What a cycle yields at its end. -/
theorem mem_finish_of_chain {b : Bounds} {R : Reader → Match → Prop} {r₀ r : Reader}
    {nodes : List Node} {count : Nat} (hr : At r) (hchain : Chain (fun _ => R) r₀ count nodes.reverse r)
    (hle : ∀ most, b.most = some most → count ≤ most) :
    ∀ m ∈ (b.finish r nodes count).results.items, At m.reader ∧ Repeated b R r₀ m := by
  intro m hm
  obtain ⟨hc, rfl⟩ := mem_finish hm
  exact ⟨hr, count, nodes.reverse, hchain, hc, hle, rfl⟩

/-- Going on from a match yields matches of chains, if cycles with the fuel that is left do. -/
theorem cycleOn_yields {b : Bounds} {p : Run} {R : Reader → Match → Prop} {r₀ : Reader} {n : Nat}
    (hcycle : ∀ {d : Tally} {r : Reader} {nodes : List Node} {count : Nat} {stalled : Bool}
      {s : Session} {out : Outcome} {s' : Session}, At r → I s →
      Chain (fun _ => R) r₀ count nodes.reverse r → (∀ most, b.most = some most → count ≤ most) →
      cycle b p n d r nodes count stalled s = some (out, s') →
      Yielded I (fun m => At m.reader ∧ Repeated b R r₀ m) s out s')
    {d : Tally} {r : Reader} {nodes : List Node} {count : Nat} {stalled : Bool} {m : Match}
    {s : Session} {out : Outcome} {s' : Session} (hat : At m.reader) (hR : R r m) (hs : I s)
    (hchain : Chain (fun _ => R) r₀ count nodes.reverse r) (hfull : b.full count = false)
    (h : cycleOn b p n d r nodes count stalled m s = some (out, s')) :
    Yielded I (fun m => At m.reader ∧ Repeated b R r₀ m) s out s' := by
  have hchain' : Chain (fun _ => R) r₀ (count + 1) (m.node.toList ++ nodes).reverse m.reader := by
    rw [reverse_toList_append]
    exact hchain.snoc hR
  have hle : ∀ most, b.most = some most → count + 1 ≤ most := fun most hm =>
    Bounds.full_eq_false hfull hm
  unfold cycleOn at h
  split at h
  · exact hcycle hat hs hchain' hle h
  · split at h
    · cases h
      exact yielded_now hs (mem_finish_of_chain hat hchain' hle)
    · exact hcycle hat hs hchain' hle h

/-- A cycle yields matches of chains that start with the chain gone through so far. -/
theorem cycle_yields {b : Bounds} {p : Run} {R : Reader → Match → Prop} (hp : Yields I At p R)
    {r₀ : Reader} : ∀ {n : Nat} {d : Tally} {r : Reader} {nodes : List Node} {count : Nat}
      {stalled : Bool} {s : Session} {out : Outcome} {s' : Session}, At r → I s →
      Chain (fun _ => R) r₀ count nodes.reverse r → (∀ most, b.most = some most → count ≤ most) →
      cycle b p n d r nodes count stalled s = some (out, s') →
      Yielded I (fun m => At m.reader ∧ Repeated b R r₀ m) s out s'
  | 0, _, _, _, _, _, _, _, _, _, _, _, _, h => by cases h
  | n + 1, d, r, nodes, count, stalled, s, out, s', hr, hs, hchain, hle, h => by
    rcases cycle_succ_eq_some.mp h with
      ⟨-, heq⟩ | ⟨hb, a, s₁, ha, ⟨-, heq⟩ | ⟨-, rest, s₂, hg, heq⟩⟩
    · cases heq
      exact yielded_now hs (mem_finish_of_chain hr hchain hle)
    · cases heq
      have h₁ := hp hr hs ha
      refine Yielded.append ⟨h₁.grows, h₁.kept, fun m hm => ?_⟩
        (yielded_now h₁.kept (mem_finish_of_chain hr hchain hle))
      cases hm
    · cases heq
      have h₁ := hp hr hs ha
      have h₂ : Yielded I (fun m => At m.reader ∧ Repeated b R r₀ m) s₁ rest s' := by
        refine gather_yields (fun m hm s out s' hs h => ?_) h₁.kept hg
        obtain ⟨hat, hR⟩ := h₁.found m hm
        exact cycleOn_yields (cycle_yields hp) hat hR hs hchain hb h
      refine Yielded.append ⟨h₁.grows, h₁.kept, fun m hm => ?_⟩ h₂
      cases hm

theorem repetition_yields (hI : Kept I) {n : Nat} {b : Bounds} {p : Run}
    {R : Reader → Match → Prop} (hp : Yields I At p R) :
    Yields I At (repetition n b p) (Repeated b R) := by
  intro d r s out s' hr hs h
  have := cycle_yields hp hr (hI.countCall hs) .nil (fun most _ => Nat.zero_le most) h
  exact ⟨this.grows, this.kept, this.found⟩

/-! ### The end of the text -/

theorem sentence_yields (hI : Kept I) {p : Run} {R : Reader → Match → Prop} (hp : Yields I At p R) :
    Yields I At (sentence p) fun r m => R r m ∧ m.reader.atEnd = true := by
  intro d r s out s' hr hs h
  obtain ⟨a, s₁, ha, heq⟩ := sentence_eq_some.mp h
  cases heq
  have h₁ := hp hr (hI.countCall hs) ha
  refine ⟨h₁.grows, h₁.kept, fun m hm => ?_⟩
  obtain ⟨hm, hend⟩ := List.mem_filter.mp hm
  obtain ⟨hat, hR⟩ := h₁.found m hm
  exact ⟨hat, hR, hend⟩

theorem orEmpty_yields {token : String} {p : Run} {R : Reader → Match → Prop}
    (hp : Yields I At p R) : Yields I At (orEmpty token p) fun r m =>
      R r m ∨ m = ⟨some (.emptyGroup token r.cursor none), r⟩ := by
  intro d r s out s' hr hs h
  obtain ⟨a, s₁, ha, heq⟩ := orEmpty_eq_some.mp h
  cases heq
  have h₁ := hp hr hs ha
  refine ⟨h₁.grows, h₁.kept, fun m hm => ?_⟩
  have hold : m ∈ a.results.items →
      At m.reader ∧ (R r m ∨ m = ⟨some (.emptyGroup token r.cursor none), r⟩) := fun hm =>
    ⟨(h₁.found m hm).1, .inl (h₁.found m hm).2⟩
  unfold withEmpty at hm
  split at hm
  · exact hold hm
  · rcases Ascending.mem_merge hm with hm | hm
    · exact hold hm
    · obtain rfl := List.mem_singleton.mp hm
      exact ⟨hr, .inr rfl⟩

end Run

/-! ### Parsers -/

/-- `R p` relates readers with matches of `p` in a way that all means of combining parsers pass on,
as long as sessions satisfy `I` and readers are in `At`. -/
structure Rules.Respects (rules : Rules) (P : Parser → Prop) (I : Session → Prop)
    (At : Reader → Prop) (R : Parser → Reader → Match → Prop) : Prop where
  closed : rules.Closed P
  kept : Run.Kept I
  terminal : ∀ {t r m}, P (.terminal t) → At r → m ∈ (t.read r).results.items →
    At m.reader ∧ R (.terminal t) r m
  leaf : ∀ {l}, P (.leaf l) → Run.Yields I At (fun d r s => some (l.answer d r s)) (R (.leaf l))
  choice : ∀ {name ps q r m}, q ∈ ps → R q r m → R (.choice name ps) r m
  sequence : ∀ {key label build accepts lookup parts r m}, Run.Chained accepts build
    (fun i r m => ∃ q, Parser.pick lookup parts i = some q ∧ R q r m) r m →
    R (.sequence key label build accepts lookup parts) r m
  repetition : ∀ {b p r m}, Run.Repeated b (R p) r m → R (.repetition b p) r m
  sentence : ∀ {p r m}, R p r m → m.reader.atEnd = true → R (.sentence p) r m
  orEmpty : ∀ {token p r m}, R p r m → R (.orEmpty token p) r m
  emptyGroup : ∀ {token p r}, R (.orEmpty token p) r ⟨some (.emptyGroup token r.cursor none), r⟩
  rule : ∀ {h q r m}, rules.state h.id = .defined q → R q r m → R (.rule h) r m
  /-- Remembering related matches keeps the condition, and what was remembered is related. -/
  memory : ∀ {key label build accepts lookup parts},
    P (.sequence key label build accepts lookup parts) →
    ∀ ⦃r s id found⦄, At r → I s → s.memo.idOf? key = some id →
      (∀ m ∈ Ascending.items found,
        At m.reader ∧ R (.sequence key label build accepts lookup parts) r m) →
      I (s.grow id r.cursor.offset found).2 ∧
        ∀ m ∈ (s.memo.known id r.cursor.offset).items,
          At m.reader ∧ R (.sequence key label build accepts lookup parts) r m

namespace Parser

variable {rules : Rules} {P : Parser → Prop} {I : Session → Prop} {At : Reader → Prop}
  {R : Parser → Reader → Match → Prop}

/-- All matches that a parser yields are related to the reader it was called at. -/
theorem run_yields (hR : rules.Respects P I At R) (n : Nat) :
    ∀ {p : Parser}, P p → Run.Yields I At (run rules n p) (R p) := by
  induction n with
  | zero => intro p _ d r s out s' _ _ h; cases h
  | succ n ih =>
    intro p hp
    cases p with
    | terminal t =>
      intro d r s out s' hr hs h
      cases h
      exact ⟨.refl s, hR.kept.countCall hs, fun m hm => hR.terminal hp hr hm⟩
    | leaf l =>
      intro d r s out s' hr hs h
      have := hR.leaf hp hr (hR.kept.countCall hs) h
      exact ⟨this.grows, this.kept, this.found⟩
    | choice name ps =>
      have hall : ∀ f ∈ ps.map (run rules n), Run.Yields I At f (R (.choice name ps)) := by
        intro f hf
        obtain ⟨q, hq, rfl⟩ := List.mem_map.mp hf
        intro d r s out s' hr hs h
        refine (ih (hR.closed.part hp hq) hr hs h).mono fun m hm => ?_
        exact ⟨hm.1, hR.choice hq hm.2⟩
      rw [run_choice]
      exact Run.choice_yields hR.kept hall
    | sequence key label build accepts lookup parts =>
      rw [run_sequence]
      refine Run.sequence_yields hR.kept (fun i f hf => ?_) (fun r m h => hR.sequence h) (hR.memory hp)
      obtain ⟨q, hq, rfl⟩ := Option.map_eq_some_iff.mp hf
      intro d r s out s' hr hs h
      refine (ih (hR.closed.part hp (mem_of_pick hq)) hr hs h).mono fun m hm => ?_
      exact ⟨hm.1, q, hq, hm.2⟩
    | repetition b q =>
      rw [run_repetition]
      intro d r s out s' hr hs h
      have hq : P q := hR.closed.part hp (List.mem_singleton.mpr rfl)
      refine (Run.repetition_yields hR.kept (ih hq) hr hs h).mono fun m hm => ?_
      exact ⟨hm.1, hR.repetition hm.2⟩
    | sentence q =>
      rw [run_sentence]
      intro d r s out s' hr hs h
      have hq : P q := hR.closed.part hp (List.mem_singleton.mpr rfl)
      refine (Run.sentence_yields hR.kept (ih hq) hr hs h).mono fun m hm => ?_
      exact ⟨hm.1, hR.sentence hm.2.1 hm.2.2⟩
    | orEmpty token q =>
      rw [run_orEmpty]
      intro d r s out s' hr hs h
      have hq : P q := hR.closed.part hp (List.mem_singleton.mpr rfl)
      refine (Run.orEmpty_yields (ih hq) hr hs h).mono fun m hm => ?_
      rcases hm with ⟨hat, hm | rfl⟩
      · exact ⟨hat, hR.orEmpty hm⟩
      · exact ⟨hat, hR.emptyGroup⟩
    | rule h =>
      rw [run_rule]
      cases hstate : rules.state h.id with
      | defined q =>
        intro d r s out s' hr hs hx
        refine (ih (hR.closed.rule hp hstate) hr hs hx).mono fun m hm => ?_
        exact ⟨hm.1, hR.rule hstate hm.2⟩
      | undefined =>
        intro d r s out s' _ hs hx
        cases hx
        exact Run.yielded_now hs fun m hm => by cases hm
      | dropped =>
        intro d r s out s' _ hs hx
        cases hx
        exact Run.yielded_now hs fun m hm => by cases hm

end Parser

end Curtail
