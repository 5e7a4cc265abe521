/-
# When calls come to an end

A call comes to an end if the calls it makes do. A choice makes finitely many;
a walk over finitely many parts and a cycle over text that gets shorter are
bounded too, provided that a match of a part leaves behind a place where the
parts come to an end again. `Ready` stands for that: it holds of the depths and
the reader at which parts can be called, and is kept by each of their matches.

Key definitions: `Run.Answers`.
Key theorems: `Run.walk_answers`, `Run.cycle_answers`.
-/
import Curtail.Proofs.Inversion
import Curtail.Proofs.Reading

namespace Curtail
namespace Run

/-- Called with depths `d` at `r` from any session in `J` the run comes to an end; the session stays
in `J` and all matches are as `Q` says. -/
def Answers (J : Session → Prop) (p : Run) (d : Tally) (r : Reader) (Q : Match → Prop) : Prop :=
  ∀ ⦃s⦄, J s → ∃ out s', p d r s = some (out, s') ∧ J s' ∧ ∀ m ∈ out.results.items, Q m

variable {J : Session → Prop} {d : Tally} {r : Reader}

theorem Answers.mono {p : Run} {Q Q' : Match → Prop} (h : Answers J p d r Q)
    (hQ : ∀ m, Q m → Q' m) : Answers J p d r Q' := by
  intro s hs
  obtain ⟨out, s', hx, hs', hall⟩ := h hs
  exact ⟨out, s', hx, hs', fun m hm => hQ m (hall m hm)⟩

theorem gather_answers {f : Match → Session → Option (Outcome × Session)} :
    ∀ {ms : List Match}, (∀ m ∈ ms, ∀ ⦃s⦄, J s → ∃ out s', f m s = some (out, s') ∧ J s') →
      ∀ ⦃s⦄, J s → ∃ out s', gather f ms s = some (out, s') ∧ J s'
  | [], _, s, hs => ⟨∅, s, rfl, hs⟩
  | m :: ms, hf, s, hs => by
    obtain ⟨out, s₁, h₁, hs₁⟩ := hf m List.mem_cons_self hs
    have htail := fun m' hm' => hf m' (List.mem_cons_of_mem m hm')
    obtain ⟨rest, s₂, h₂, hs₂⟩ := gather_answers htail hs₁
    exact ⟨out ++ rest, s₂, gather_cons_eq_some.mpr ⟨out, s₁, rest, s₂, h₁, h₂, rfl⟩, hs₂⟩

theorem choice_answers (hcount : ∀ {s}, J s → J s.countCall) :
    ∀ {ps : List Run}, (∀ p ∈ ps, ∀ ⦃s⦄, J s → ∃ out s', p d r s = some (out, s') ∧ J s') →
      ∀ ⦃s⦄, J s → ∃ out s', choice ps d r s = some (out, s') ∧ J s'
  | [], _, s, hs => ⟨∅, s, rfl, hs⟩
  | p :: ps, hp, s, hs => by
    obtain ⟨out, s₁, h₁, hs₁⟩ := hp p List.mem_cons_self (hcount hs)
    cases hm : out.isMatch with
    | true => exact ⟨out, s₁, choice_cons_eq_some.mpr ⟨out, s₁, h₁, .inl ⟨hm, rfl⟩⟩, hs₁⟩
    | false =>
      have htail := fun q hq => hp q (List.mem_cons_of_mem p hq)
      obtain ⟨rest, s₂, h₂, hs₂⟩ := choice_answers hcount htail hs₁
      have hcons := choice_cons_eq_some.mpr ⟨out, s₁, h₁, .inr ⟨hm, rest, s₂, h₂, rfl⟩⟩
      exact ⟨out ++ rest, s₂, hcons, hs₂⟩

/-- A walk over `len` parts comes to an end: `Ready` carries the induction from part to part. -/
theorem walk_answers {steps : Steps} {len : Nat} (hlen : ∀ i, len ≤ i → steps.part i = none)
    {Ready : Tally → Reader → Prop}
    (hpart : ∀ {i p d r}, steps.part i = some p → Ready d r →
      Answers J p d r fun m => Ready (depthsAfter d r m.reader) m.reader) :
    ∀ {n k : Nat} {d : Tally} {r : Reader} {nodes : List Node}, Ready d r → len - k < n →
      ∀ ⦃s⦄, J s → ∃ out s', walk steps n d r k nodes s = some (out, s') ∧ J s'
  | 0, _, _, _, _, _, hn, _, _ => absurd hn (Nat.not_lt_zero _)
  | n + 1, k, d, r, nodes, hr, hn, s, hs => by
    cases hk : steps.part k with
    | none =>
      exact ⟨_, s, walk_succ_eq_some.mpr (.inl ⟨hk, rfl⟩), hs⟩
    | some p =>
      have hlt : k < len := by
        refine Nat.lt_of_not_le fun hge => ?_
        rw [hlen k hge] at hk
        cases hk
      obtain ⟨out, s₁, h₁, hs₁, hready⟩ := hpart hk hr hs
      have hon : ∀ m ∈ out.results.items, ∀ ⦃s⦄, J s →
          ∃ out s', walkOn steps n d r k nodes m s = some (out, s') ∧ J s' := fun m hm s hs =>
        walk_answers hlen hpart (hready m hm) (by omega) hs
      obtain ⟨rest, s₂, h₂, hs₂⟩ := gather_answers hon hs₁
      exact ⟨_, s₂, walk_succ_eq_some.mpr (.inr ⟨p, out, s₁, rest, s₂, hk, h₁, h₂, rfl⟩), hs₂⟩

/-- A cycle comes to an end: a match that reads nothing is followed by one more, then text is left
behind. -/
theorem cycle_answers {b : Bounds} {p : Run} {Ready : Tally → Reader → Prop}
    (hp : ∀ {d r}, Ready d r →
      Answers J p d r fun m => r.Ahead m.reader ∧ Ready (depthsAfter d r m.reader) m.reader) :
    ∀ {n : Nat} {d : Tally} {r : Reader} {nodes : List Node} {count : Nat} {stalled : Bool},
      Ready d r → 2 * r.remaining + (if stalled then 1 else 2) ≤ n →
      ∀ ⦃s⦄, J s → ∃ out s', cycle b p n d r nodes count stalled s = some (out, s') ∧ J s'
  | 0, _, r, _, _, stalled, _, hn, _, _ => by cases stalled <;> simp at hn
  | n + 1, d, r, nodes, count, stalled, hr, hn, s, hs => by
    cases hb : b.full count with
    | true => exact ⟨_, s, cycle_succ_eq_some.mpr (.inl ⟨hb, rfl⟩), hs⟩
    | false =>
      obtain ⟨out, s₁, h₁, hs₁, hready⟩ := hp hr hs
      cases hm : out.isMatch with
      | false =>
        exact ⟨_, s₁, cycle_succ_eq_some.mpr (.inr ⟨hb, out, s₁, h₁, .inl ⟨hm, rfl⟩⟩), hs₁⟩
      | true =>
        have hon : ∀ m ∈ out.results.items, ∀ ⦃s⦄, J s →
            ∃ out s', cycleOn b p n d r nodes count stalled m s = some (out, s') ∧ J s' := by
          intro m hm s hs
          obtain ⟨hahead, hnext⟩ := hready m hm
          unfold cycleOn
          split
          · rename_i hlt
            have hless := hahead.remaining_lt hlt
            rw [depthsAfter, if_pos (show r.cursor.offset < m.reader.cursor.offset from hlt)] at hnext
            refine cycle_answers hp hnext ?_ hs
            cases stalled <;> simp at hn ⊢ <;> omega
          · rename_i hle
            have hsame := hahead.remaining_eq hle
            rw [depthsAfter, if_neg (show ¬ r.cursor.offset < m.reader.cursor.offset from hle)] at hnext
            cases stalled with
            | true => exact ⟨_, s, rfl, hs⟩
            | false =>
              refine cycle_answers hp hnext ?_ hs
              simp at hn ⊢
              omega
        obtain ⟨rest, s₂, h₂, hs₂⟩ := gather_answers hon hs₁
        have hcycle := cycle_succ_eq_some.mpr
          (.inr ⟨hb, out, s₁, h₁, .inr ⟨hm, rest, s₂, h₂, rfl⟩⟩)
        exact ⟨_, s₂, hcycle, hs₂⟩

end Run
end Curtail
