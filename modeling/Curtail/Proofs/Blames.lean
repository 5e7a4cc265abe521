/-
# What the faults of a call have in common

A fault is reported by a terminal or a leaf, by a sequence that expected a part
at a reader, by a sentence that found more text after a match, or because a
rule has no definition. What holds of the faults at all these places holds of
the fault that a call yields, since joining outcomes keeps one of their faults.

A call goes on from readers that its parts yield, so the induction needs to
know that these satisfy what is said of readers.

Key definitions: `Run.Blames`, `Rules.Blame`.
Key theorems: `Parser.run_blames`.
-/
import Curtail.Proofs.Yields

namespace Curtail

theorem Fault.furthest_eq_some {a b : Option Fault} {f : Fault} (h : furthest a b = some f) :
    a = some f ∨ b = some f := by
  cases a with
  | none => exact .inr h
  | some x =>
    cases b with
    | none => exact .inl h
    | some y =>
      rw [furthest] at h
      split at h
      · exact .inr h
      · exact .inl h

namespace Run

/-- The session's condition was kept, and a fault is as `B` says. -/
structure Blamed (I : Session → Prop) (B : Fault → Prop) (out : Outcome) (s' : Session) : Prop where
  kept : I s'
  fault : ∀ f, out.fault = some f → B f

/-- Called at a reader in `At`, the run keeps the session's condition, and its fault is as `B`
says. -/
def Blames (I : Session → Prop) (At : Reader → Prop) (p : Run) (B : Fault → Prop) : Prop :=
  ∀ ⦃d r s out s'⦄, At r → I s → p d r s = some (out, s') → Blamed I B out s'

variable {I : Session → Prop} {At : Reader → Prop} {B : Fault → Prop}

/-- An outcome without a fault. -/
theorem blamed_none {s : Session} {out : Outcome} (hs : I s) (h : out.fault = none) :
    Blamed I B out s :=
  ⟨hs, fun f hf => by rw [h] at hf; cases hf⟩

theorem Blamed.append {a b : Outcome} {s s' : Session} (ha : Blamed I B a s)
    (hb : Blamed I B b s') : Blamed I B (a ++ b) s' where
  kept := hb.kept
  fault f hf := (Fault.furthest_eq_some hf).elim (ha.fault f) (hb.fault f)

theorem gather_blames {f : Match → Session → Option (Outcome × Session)} :
    ∀ {ms : List Match}, (∀ m ∈ ms, ∀ ⦃s out s'⦄, I s → f m s = some (out, s') →
      Blamed I B out s') → ∀ {s out s'}, I s → gather f ms s = some (out, s') → Blamed I B out s'
  | [], _, s, out, s', hs, h => by
    cases h
    exact blamed_none hs rfl
  | m :: ms, hf, s, out, s', hs, h => by
    obtain ⟨a, s₁, b, s₂, ha, hb, heq⟩ := gather_cons_eq_some.mp h
    cases heq
    have h₁ := hf m List.mem_cons_self hs ha
    exact h₁.append (gather_blames (fun m' hm' => hf m' (List.mem_cons_of_mem _ hm')) h₁.kept hb)

theorem choice_blames (hI : Kept I) :
    ∀ {ps : List Run}, (∀ p ∈ ps, Blames I At p B) → Blames I At (choice ps) B
  | [], _, d, r, s, out, s', _, hs, h => by
    cases h
    exact blamed_none hs rfl
  | p :: ps, hp, d, r, s, out, s', hr, hs, h => by
    obtain ⟨a, s₁, ha, hrest⟩ := choice_cons_eq_some.mp h
    have h₁ := hp p List.mem_cons_self hr (hI.countCall hs) ha
    rcases hrest with ⟨-, heq⟩ | ⟨-, b, s₂, hb, heq⟩
    · cases heq
      exact h₁
    · cases heq
      exact h₁.append
        (choice_blames hI (fun q hq => hp q (List.mem_cons_of_mem _ hq)) hr h₁.kept hb)

section Walks

variable {steps : Steps} {R : Nat → Reader → Match → Prop}

theorem fault_finishIf (r : Reader) (k : Nat) (nodes : List Node) :
    (steps.finishIf r k nodes).fault = none := by
  unfold Steps.finishIf
  split <;> rfl

/-- A part's fault is its own or that it was expected. -/
theorem faultAt_eq_some {r : Reader} {k : Nat} {out : Outcome} {f : Fault}
    (h : steps.faultAt r k out = some f) :
    out.fault = some f ∨ f = .expecting r.token.cursor (steps.name k) := by
  unfold Steps.faultAt at h
  split at h
  · exact .inr (Option.some.inj h).symm
  · exact .inl h

theorem walk_blames (hyields : ∀ i p, steps.part i = some p → Yields I At p (R i))
    (hpart : ∀ i p, steps.part i = some p → Blames I At p B)
    (hexpecting : ∀ r name, At r → B (.expecting r.token.cursor name)) :
    ∀ {n : Nat} {d : Tally} {r : Reader} {k : Nat} {nodes : List Node} {s : Session}
      {out : Outcome} {s' : Session}, At r → I s → walk steps n d r k nodes s = some (out, s') →
      Blamed I B out s'
  | 0, _, _, _, _, _, _, _, _, _, h => by cases h
  | n + 1, d, r, k, nodes, s, out, s', hr, hs, h => by
    rcases walk_succ_eq_some.mp h with ⟨-, heq⟩ | ⟨p, a, s₁, rest, s₂, hk, hp, hg, heq⟩
    · cases heq
      exact blamed_none hs (fault_finishIf r k nodes)
    · cases heq
      have hfound := (hyields k p hk hr hs hp).found
      have hown := hpart k p hk hr hs hp
      have hreport : Blamed I B (.reports (steps.faultAt r k a) a.curtailed) s₁ := by
        refine ⟨hown.kept, fun f hf => ?_⟩
        rcases faultAt_eq_some hf with hf | rfl
        · exact hown.fault f hf
        · exact hexpecting r _ hr
      have hrest : Blamed I B rest s' := gather_blames
        (fun m hm _ _ _ hs h => walk_blames hyields hpart hexpecting (hfound m hm).1 hs h)
        hown.kept hg
      exact (hreport.append hrest).append (blamed_none hrest.kept (fault_finishIf r k nodes))

theorem sequence_blames (hI : Kept I) {n : Nat} {key : Key} {name : String}
    (hyields : ∀ i p, steps.part i = some p → Yields I At p (R i))
    (hpart : ∀ i p, steps.part i = some p → Blames I At p B)
    (hexpecting : ∀ r name, At r → B (.expecting r.token.cursor name))
    (hkept : ∀ ⦃d r s out s'⦄, At r → I s → sequence n key name steps d r s = some (out, s') →
      I s') : Blames I At (sequence n key name steps) B := by
  intro d r s out s' hr hs h
  have hs₀ : I (s.countCall.register key).2 := hI.register key (hI.countCall hs)
  refine ⟨hkept hr hs h, ?_⟩
  rcases sequence_eq_some.mp h with ⟨-, heq⟩ | ⟨-, a, s₁, hw, heq⟩
  · cases heq
    exact nofun
  · cases heq
    exact (walk_blames hyields hpart hexpecting hr hs₀ hw).fault

end Walks

section Cycles

variable {b : Bounds} {p : Run} {R : Reader → Match → Prop}

theorem fault_finish (r : Reader) (nodes : List Node) (count : Nat) :
    (b.finish r nodes count).fault = none := by
  unfold Bounds.finish
  split <;> rfl

theorem cycle_blames (hyields : Yields I At p R) (hp : Blames I At p B) :
    ∀ {n : Nat} {d : Tally} {r : Reader} {nodes : List Node} {count : Nat} {stalled : Bool}
      {s : Session} {out : Outcome} {s' : Session}, At r → I s →
      cycle b p n d r nodes count stalled s = some (out, s') → Blamed I B out s'
  | 0, _, _, _, _, _, _, _, _, _, _, h => by cases h
  | n + 1, d, r, nodes, count, stalled, s, out, s', hr, hs, h => by
    rcases cycle_succ_eq_some.mp h with
      ⟨-, heq⟩ | ⟨-, a, s₁, ha, ⟨-, heq⟩ | ⟨-, rest, s₂, hg, heq⟩⟩
    · cases heq
      exact blamed_none hs (fault_finish r nodes count)
    · cases heq
      have hown := hp hr hs ha
      exact Blamed.append ⟨hown.kept, hown.fault⟩
        (blamed_none hown.kept (fault_finish r nodes count))
    · cases heq
      have hfound := (hyields hr hs ha).found
      have hown := hp hr hs ha
      refine Blamed.append ⟨hown.kept, hown.fault⟩
        (gather_blames (fun m hm _ _ _ hs h => ?_) hown.kept hg)
      unfold cycleOn at h
      split at h
      · exact cycle_blames hyields hp (hfound m hm).1 hs h
      · split at h
        · cases h
          exact blamed_none hs (fault_finish _ _ _)
        · exact cycle_blames hyields hp (hfound m hm).1 hs h

theorem repetition_blames (hI : Kept I) {n : Nat} (hyields : Yields I At p R)
    (hp : Blames I At p B) : Blames I At (repetition n b p) B :=
  fun _ _ _ _ _ hr hs h => cycle_blames hyields hp hr (hI.countCall hs) h

end Cycles

/-- The text goes on right after one of the matches. -/
theorem trailing?_eq_some {results : Matches} {place : Position}
    (h : trailing? results = some place) : ∃ m ∈ results.items, place = m.reader.token.cursor := by
  unfold trailing? at h
  obtain ⟨m, hm, rfl⟩ := Option.map_eq_some_iff.mp h
  exact ⟨m, (List.mem_filter.mp (List.mem_of_getLast? hm)).1, rfl⟩

theorem atEnd_fault_eq_some {out : Outcome} {f : Fault} (h : (atEnd out).fault = some f) :
    out.fault = some f ∨ ∃ m ∈ out.results.items, f = .trailing m.reader.token.cursor := by
  simp only [atEnd] at h
  split at h
  · split at h
    · rename_i place hplace
      rcases Fault.furthest_eq_some h with hf | hf
      · obtain ⟨m, hm, rfl⟩ := trailing?_eq_some hplace
        exact .inr ⟨m, hm, (Option.some.inj hf).symm⟩
      · exact .inl hf
    · exact .inl h
  · exact .inl h

theorem sentence_blames (hI : Kept I) {p : Run} {R : Reader → Match → Prop}
    (hyields : Yields I At p R) (hp : Blames I At p B)
    (htrailing : ∀ r, At r → B (.trailing r.token.cursor)) : Blames I At (sentence p) B := by
  intro d r s out s' hr hs h
  obtain ⟨a, s₁, ha, heq⟩ := sentence_eq_some.mp h
  cases heq
  have hown := hp hr (hI.countCall hs) ha
  refine ⟨hown.kept, fun f hf => ?_⟩
  rcases atEnd_fault_eq_some hf with hf | ⟨m, hm, rfl⟩
  · exact hown.fault f hf
  · exact htrailing m.reader ((hyields hr (hI.countCall hs) ha).found m hm).1

theorem orEmpty_blames {token : String} {p : Run} (hp : Blames I At p B) :
    Blames I At (orEmpty token p) B := by
  intro d r s out s' hr hs h
  obtain ⟨a, s₁, ha, heq⟩ := orEmpty_eq_some.mp h
  cases heq
  have hown := hp hr hs ha
  refine ⟨hown.kept, fun f hf => hown.fault f ?_⟩
  unfold withEmpty at hf
  split at hf <;> exact hf

end Run

/-- `B` holds of every fault that is reported at a reader in `At`. -/
structure Rules.Blame (rules : Rules) (P : Parser → Prop) (I : Session → Prop) (At : Reader → Prop)
    (B : Fault → Prop) : Prop where
  terminal : ∀ {t r f}, P (.terminal t) → At r → (t.read r).fault = some f → B f
  leaf : ∀ {l}, P (.leaf l) → Run.Blames I At (fun d r s => some (l.answer d r s)) B
  expecting : ∀ r name, At r → B (.expecting r.token.cursor name)
  trailing : ∀ r, At r → B (.trailing r.token.cursor)
  undefined : ∀ h, P (.rule h) → rules.state h.id = .undefined → B (.grammar (.undefined h.name))
  dropped : ∀ h, P (.rule h) → rules.state h.id = .dropped → B (.grammar (.dropped h.name))

/-- The fault that a parser yields is as all reported faults are. -/
theorem Parser.run_blames {rules : Rules} {P : Parser → Prop} {I : Session → Prop}
    {At : Reader → Prop} {R : Parser → Reader → Match → Prop} {B : Fault → Prop}
    (hclosed : rules.Closed P) (hI : Run.Kept I) (hB : rules.Blame P I At B)
    (hyields : ∀ n {p : Parser}, P p → Run.Yields I At (run rules n p) (R p)) (n : Nat) :
    ∀ {p : Parser}, P p → Run.Blames I At (run rules n p) B := by
  induction n with
  | zero => intro p _ d r s out s' _ _ h; cases h
  | succ n ih =>
    intro p hp
    cases p with
    | terminal t =>
      intro d r s out s' hr hs h
      cases h
      exact ⟨hI.countCall hs, fun f hf => hB.terminal hp hr hf⟩
    | leaf l => exact fun d r s out s' hr hs h => hB.leaf hp hr (hI.countCall hs) h
    | choice name ps =>
      rw [run_choice]
      refine Run.choice_blames hI fun f hf => ?_
      obtain ⟨q, hq, rfl⟩ := List.mem_map.mp hf
      exact ih (hclosed.part hp hq)
    | sequence key label build accepts lookup parts =>
      have hmember : ∀ i f, (steps rules n build accepts lookup parts).part i = some f →
          ∃ q, pick lookup parts i = some q ∧ P q ∧ f = run rules n q := by
        intro i f hf
        obtain ⟨q, hq, rfl⟩ := Option.map_eq_some_iff.mp hf
        exact ⟨q, hq, hclosed.part hp (mem_of_pick hq), rfl⟩
      have hkept := hyields (n + 1) hp
      rw [run_sequence] at hkept ⊢
      refine Run.sequence_blames hI (R := fun i r m => ∃ q, pick lookup parts i = some q ∧ R q r m)
        (fun i f hf => ?_) (fun i f hf => ?_) hB.expecting
        fun _ _ _ _ _ hr hs h => (hkept hr hs h).kept
      · obtain ⟨q, hpick, hq, rfl⟩ := hmember i f hf
        exact fun _ _ _ _ _ hr hs h => (hyields n hq hr hs h).mono fun m hm =>
          ⟨hm.1, q, hpick, hm.2⟩
      · obtain ⟨q, -, hq, rfl⟩ := hmember i f hf
        exact ih hq
    | repetition b q =>
      have hq : P q := hclosed.part hp (List.mem_singleton.mpr rfl)
      exact Run.repetition_blames hI (hyields n hq) (ih hq)
    | sentence q =>
      have hq : P q := hclosed.part hp (List.mem_singleton.mpr rfl)
      exact Run.sentence_blames hI (hyields n hq) (ih hq) hB.trailing
    | orEmpty token q => exact Run.orEmpty_blames (ih (hclosed.part hp (List.mem_singleton.mpr rfl)))
    | rule h =>
      rw [run_rule]
      cases hstate : rules.state h.id with
      | defined q => exact ih (hclosed.rule hp hstate)
      | undefined =>
        intro d r s out s' _ hs hx
        cases hx
        refine ⟨hs, fun f hf => ?_⟩
        cases hf
        exact hB.undefined h hp hstate
      | dropped =>
        intro d r s out s' _ hs hx
        cases hx
        refine ⟨hs, fun f hf => ?_⟩
        cases hf
        exact hB.dropped h hp hstate

end Curtail
