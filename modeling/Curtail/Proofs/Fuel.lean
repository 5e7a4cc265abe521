/-
# More fuel changes no answer

Fuel only decides whether a parse is carried to its end. Whatever a parser
answers with some fuel it answers with all fuel above, so what it answers at
all is one outcome and one session. This holds of every engine whose sequences
are like that.

Key definitions: `Run.Below`, `Run.Engine.Monotone`.
Key theorems: `Parser.runBy_mono`, `Parser.run_mono`, `Parser.run_unique`.
-/
import Curtail.Proofs.Engine
import Mathlib.Data.List.Forall2

namespace Curtail

namespace Run

/-- Whatever `p` answers, `q` answers too. -/
def Below (p q : Run) : Prop := ∀ d r s x, p d r s = some x → q d r s = some x

/-- The same sequence of parts, each of them below its counterpart. -/
structure Steps.Below (a b : Steps) : Prop where
  part : ∀ i, (a.part i = none ∧ b.part i = none) ∨
    ∃ p q, a.part i = some p ∧ b.part i = some q ∧ Run.Below p q
  name : a.name = b.name
  accepts : a.accepts = b.accepts
  build : a.build = b.build

theorem Steps.Below.finishIf {a b : Steps} (h : a.Below b) (r : Reader) (k : Nat)
    (nodes : List Node) : a.finishIf r k nodes = b.finishIf r k nodes := by
  simp only [Steps.finishIf, Steps.finish, h.accepts, h.build]

theorem Steps.Below.faultAt {a b : Steps} (h : a.Below b) (r : Reader) (k : Nat) (out : Outcome) :
    a.faultAt r k out = b.faultAt r k out := by
  simp only [Steps.faultAt, h.accepts, h.name]

variable {d : Tally} {r : Reader} {s : Session} {x : Outcome × Session}

theorem gather_mono {f g : Match → Session → Option (Outcome × Session)}
    (hfg : ∀ m s x, f m s = some x → g m s = some x) :
    ∀ {ms : List Match} {s : Session} {x : Outcome × Session},
      gather f ms s = some x → gather g ms s = some x
  | [], _, _, h => h
  | m :: ms, s, x, h => by
    obtain ⟨out, s₁, rest, s₂, hf, hg, rfl⟩ := gather_cons_eq_some.mp h
    exact gather_cons_eq_some.mpr ⟨out, s₁, rest, s₂, hfg _ _ _ hf, gather_mono hfg hg, rfl⟩

/-- Alternatives that answer more make a choice that does. -/
theorem choice_below {ps qs : List Run} (h : List.Forall₂ Below ps qs) :
    Below (choice ps) (choice qs) := by
  induction h with
  | nil => exact fun _ _ _ _ h => h
  | cons hpq _ ih =>
    intro d r s x h
    obtain ⟨out, s₁, hp, hrest⟩ := choice_cons_eq_some.mp h
    refine choice_cons_eq_some.mpr ⟨out, s₁, hpq _ _ _ _ hp, hrest.imp_right ?_⟩
    rintro ⟨hm, rest, s₂, hc, rfl⟩
    exact ⟨hm, rest, s₂, ih _ _ _ _ hc, rfl⟩

theorem choice_mono {α : Type} {f g : α → Run} {as : List α} (hfg : ∀ a ∈ as, Below (f a) (g a)) :
    Below (choice (as.map f)) (choice (as.map g)) := by
  refine choice_below ?_
  rw [List.forall₂_map_left_iff, List.forall₂_map_right_iff]
  exact List.forall₂_same.mpr hfg

theorem walk_mono {a b : Steps} (hab : a.Below b) {n n' : Nat} (hn : n ≤ n') {k : Nat}
    {nodes : List Node} (h : walk a n d r k nodes s = some x) :
    walk b n' d r k nodes s = some x := by
  induction n generalizing n' d r k nodes s x with
  | zero => cases h
  | succ n ih =>
    obtain ⟨n', rfl⟩ : ∃ m, n' = m + 1 := ⟨n' - 1, by omega⟩
    rcases walk_succ_eq_some.mp h with ⟨hk, rfl⟩ | ⟨p, out, s₁, rest, s₂, hk, hp, hg, rfl⟩
    · rcases hab.part k with ⟨-, hb⟩ | ⟨_, _, ha, -⟩
      · exact walk_succ_eq_some.mpr (.inl ⟨hb, by rw [hab.finishIf]⟩)
      · rw [hk] at ha; cases ha
    · rcases hab.part k with ⟨ha, -⟩ | ⟨p', q, ha, hb, hpq⟩
      · rw [hk] at ha; cases ha
      · obtain rfl : p = p' := by rw [hk] at ha; exact Option.some.inj ha
        have hon : gather (walkOn b n' d r k nodes) out.results.items s₁ = some (rest, s₂) :=
          gather_mono (fun m s x hx => ih (by omega) hx) hg
        refine walk_succ_eq_some.mpr (.inr ⟨q, out, s₁, rest, s₂, hb, hpq _ _ _ _ hp, hon, ?_⟩)
        rw [hab.finishIf, hab.faultAt]

/-- More fuel, and parts that answer more, change no answer of a sequence. -/
def Engine.Monotone (engine : Engine) : Prop :=
  ∀ {a b : Steps}, a.Below b → ∀ {n n' : Nat}, n ≤ n' → ∀ (key : Key) (name : String),
    Below (engine n key name a) (engine n' key name b)

theorem sequence_mono : Engine.Monotone sequence := by
  intro a b hab n n' hn key name d r s x h
  rcases sequence_eq_some.mp h with hr | ⟨hr, out, s₁, hw, rfl⟩
  · exact sequence_eq_some.mpr (.inl hr)
  · exact sequence_eq_some.mpr (.inr ⟨hr, out, s₁, walk_mono hab hn hw, rfl⟩)

theorem descent_mono : Engine.Monotone descent := fun hab _ _ hn _ _ _ _ _ _ h =>
  walk_mono hab hn h

/-- A cycle goes on from a match with the same answer if every cycle with the fuel left does. -/
theorem cycleOn_imp {b : Bounds} {p q : Run} {n n' : Nat}
    (hcycle : ∀ {d r nodes count stalled s x}, cycle b p n d r nodes count stalled s = some x →
      cycle b q n' d r nodes count stalled s = some x) {nodes : List Node} {count : Nat}
    {stalled : Bool} {m : Match} (h : cycleOn b p n d r nodes count stalled m s = some x) :
    cycleOn b q n' d r nodes count stalled m s = some x := by
  unfold cycleOn at h ⊢
  split
  · rename_i hlt
    rw [if_pos hlt] at h
    exact hcycle h
  · rename_i hlt
    rw [if_neg hlt] at h
    split
    · rename_i hs
      rwa [if_pos hs] at h
    · rename_i hs
      rw [if_neg hs] at h
      exact hcycle h

theorem cycle_mono {b : Bounds} {p q : Run} (hpq : Below p q) {n n' : Nat} (hn : n ≤ n')
    {nodes : List Node} {count : Nat} {stalled : Bool}
    (h : cycle b p n d r nodes count stalled s = some x) :
    cycle b q n' d r nodes count stalled s = some x := by
  induction n generalizing n' d r nodes count stalled s x with
  | zero => cases h
  | succ n ih =>
    obtain ⟨n', rfl⟩ : ∃ m, n' = m + 1 := ⟨n' - 1, by omega⟩
    rcases cycle_succ_eq_some.mp h with hb | ⟨hb, out, s₁, hp, hm | ⟨hm, rest, s₂, hg, rfl⟩⟩
    · exact cycle_succ_eq_some.mpr (.inl hb)
    · exact cycle_succ_eq_some.mpr (.inr ⟨hb, out, s₁, hpq _ _ _ _ hp, .inl hm⟩)
    · have hon : gather (cycleOn b q n' d r nodes count stalled) out.results.items s₁ =
          some (rest, s₂) :=
        gather_mono (fun m s x hx => cycleOn_imp (fun hx => ih (by omega) hx) hx) hg
      exact cycle_succ_eq_some.mpr
        (.inr ⟨hb, out, s₁, hpq _ _ _ _ hp, .inr ⟨hm, rest, s₂, hon, rfl⟩⟩)

theorem sentence_mono {p q : Run} (hpq : Below p q) : Below (sentence p) (sentence q) := by
  intro d r s x h
  obtain ⟨out, s₁, hp, rfl⟩ := sentence_eq_some.mp h
  exact sentence_eq_some.mpr ⟨out, s₁, hpq _ _ _ _ hp, rfl⟩

theorem orEmpty_mono {p q : Run} (hpq : Below p q) (token : String) :
    Below (orEmpty token p) (orEmpty token q) := by
  intro d r s x h
  obtain ⟨out, s₁, hp, rfl⟩ := orEmpty_eq_some.mp h
  exact orEmpty_eq_some.mpr ⟨out, s₁, hpq _ _ _ _ hp, rfl⟩

end Run

namespace Parser

variable {rules : Rules}

/-- Parts that answer more make steps that do. -/
theorem steps_below_of {f g : Parser → Run} (hfg : ∀ p, Run.Below (f p) (g p)) (name : Nat → String)
    (accepts : Nat → Bool) (build : Builder) (lookup : Nat → Option Nat) (parts : List Parser) :
    Run.Steps.Below ⟨fun i => (pick lookup parts i).map f, name, accepts, build⟩
      ⟨fun i => (pick lookup parts i).map g, name, accepts, build⟩ := by
  refine ⟨fun i => ?_, rfl, rfl, rfl⟩
  simp only
  cases pick lookup parts i with
  | none => exact .inl ⟨rfl, rfl⟩
  | some p => exact .inr ⟨_, _, rfl, rfl, hfg p⟩

theorem runBy_below_succ {engine : Run.Engine} (hengine : engine.Monotone) (n : Nat) :
    ∀ p : Parser, Run.Below (runBy rules engine n p) (runBy rules engine (n + 1) p) := by
  induction n with
  | zero => intro p d r s x h; cases h
  | succ n ih =>
    intro p
    cases p with
    | terminal t => exact fun _ _ _ _ h => h
    | leaf l => exact fun _ _ _ _ h => h
    | choice name ps => exact Run.choice_mono fun q _ => ih q
    | sequence key label build accepts lookup parts =>
      exact hengine (steps_below_of ih _ accepts build lookup parts) (Nat.le_succ n) key _
    | repetition b q => exact fun _ _ _ _ h => Run.cycle_mono (ih q) (Nat.le_succ n) h
    | sentence q => exact Run.sentence_mono (ih q)
    | orEmpty token q => exact Run.orEmpty_mono (ih q) token
    | rule h =>
      rw [runBy_rule, runBy_rule]
      cases rules.state h.id with
      | defined q => exact ih q
      | undefined => exact fun _ _ _ _ hx => hx
      | dropped => exact fun _ _ _ _ hx => hx

/-- More fuel changes no answer of an engine. -/
theorem runBy_mono {engine : Run.Engine} (hengine : engine.Monotone) {p : Parser} {n n' : Nat}
    (hn : n ≤ n') {d : Tally} {r : Reader} {s : Session} {x : Outcome × Session}
    (h : p.runBy rules engine n d r s = some x) : p.runBy rules engine n' d r s = some x := by
  induction hn with
  | refl => exact h
  | step _ ih => exact runBy_below_succ hengine _ p _ _ _ _ ih

/-- More fuel changes no answer. -/
theorem run_mono {p : Parser} {n n' : Nat} (hn : n ≤ n') {d : Tally} {r : Reader} {s : Session}
    {x : Outcome × Session} (h : p.run rules n d r s = some x) : p.run rules n' d r s = some x := by
  rw [run_eq_runBy] at h ⊢
  exact runBy_mono Run.sequence_mono hn h

/-- Parts with more fuel answer all that they do with less. -/
theorem steps_below {n n' : Nat} (hn : n ≤ n') (build : Builder) (accepts : Nat → Bool)
    (lookup : Nat → Option Nat) (parts : List Parser) :
    (steps rules n build accepts lookup parts).Below (steps rules n' build accepts lookup parts) :=
  steps_below_of (fun _ _ _ _ _ => run_mono hn) _ accepts build lookup parts

/-- Whatever the fuel, there is one answer. -/
theorem run_unique {p : Parser} {n n' : Nat} {d : Tally} {r : Reader} {s : Session}
    {x y : Outcome × Session} (hx : p.run rules n d r s = some x)
    (hy : p.run rules n' d r s = some y) : x = y := by
  have hx' := run_mono (Nat.le_max_left n n') hx
  have hy' := run_mono (Nat.le_max_right n n') hy
  exact Option.some.inj (hx'.symm.trans hy')

end Parser

/-- The fuel of a grammar in a form that is easy to compare with. -/
theorem Grammar.mul_le_fuel (g : Grammar) (r : Reader) :
    64 * ((g.weight + 8) * (r.source.limit + 8)) ≤ g.fuel r := by
  have hpos : 0 < (g.weight + 8) * (r.source.limit + 8) :=
    Nat.mul_pos (Nat.succ_pos _) (Nat.succ_pos _)
  exact Nat.mul_le_mul_left 64 (Nat.le_mul_of_pos_left _ hpos)

end Curtail
