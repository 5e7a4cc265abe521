/-
# Trees but for their places

Nodes that differ only in where they stand have the same value, or fail with
the same fault but for its place, if their interpreters look at tokens and
values alone. Builders that look at nothing else either make such nodes of
such nodes. What is proved here says nothing of how places differ.

Interpreters are functions, so "looks at no place" means: on children that are
the same but for their places it comes to the same.

Key definitions: `Fault.Alike`, `SameResult`, `Interpreter.Blind`,
`Node.Alike`, `Builder.Blind`.
Key theorems: `Node.Alike.value`, `Builder.blind_group`.
-/
import Curtail.Node.Builder
import Mathlib.Data.List.Forall2

namespace Curtail

open List (Forall₂)

/-! ### Results -/

/-- The same kind of fault with the same message. -/
structure Fault.Alike (f f' : Fault) : Prop where
  code : f'.code = f.code
  message : f'.message = f.message

theorem Fault.alike_eval (p p' : Position) {message message' : String} (h : message' = message) :
    (eval p message).Alike (eval p' message') := ⟨rfl, h⟩

/-- The same result, or the same fault but for its place. -/
inductive SameResult {α : Type} : Except Fault α → Except Fault α → Prop
  | ok (a : α) : SameResult (.ok a) (.ok a)
  | error {f f' : Fault} : f.Alike f' → SameResult (.error f) (.error f')

theorem SameResult.map {α β : Type} {x x' : Except Fault α} (h : SameResult x x') (f : α → β) :
    SameResult (x.map f) (x'.map f) := by
  cases h with
  | ok a => exact .ok (f a)
  | error h => exact .error h

theorem SameResult.bind {α β : Type} {x x' : Except Fault α} {f f' : α → Except Fault β}
    (h : SameResult x x') (hf : ∀ a, SameResult (f a) (f' a)) :
    SameResult (x.bind f) (x'.bind f') := by
  cases h with
  | ok a => exact hf a
  | error h => exact .error h

/-! ### Interpreters -/

/-- The same token, and the same value in every context. -/
structure Child.Alike (c c' : Child) : Prop where
  token : c'.token = c.token
  value : ∀ ctx, SameResult (c.value ctx) (c'.value ctx)

/-- The interpreter looks at no places. -/
def Interpreter.Blind (f : Interpreter) : Prop :=
  ∀ ctx ⦃cs cs'⦄, Forall₂ Child.Alike cs cs' → SameResult (f ctx cs) (f ctx cs')

/-- The interpreter raises the fault itself: it is not one of a child. -/
def Interpreter.Raises (i : Interpreter) (f : Fault) : Prop :=
  ∃ ctx cs, i ctx cs = .error f ∧ ∀ c ∈ cs, ∀ ctx', c.value ctx' ≠ .error f

/-- The nodes are the same but for their places, and all their interpreters are in `Q`. -/
inductive Node.Alike (Q : Interpreter → Prop) : Node → Node → Prop
  | leaf {token : String} {value : Value} {start stop start' stop' : Position} :
    Alike Q (.leaf token value start stop) (.leaf token value start' stop')
  | branch {token : String} {cs cs' : List Node} {i : Option Interpreter}
      {start stop start' stop' : Position} : (∀ f, i = some f → Q f) → Forall₂ (Alike Q) cs cs' →
    Alike Q (.branch token cs i start stop) (.branch token cs' i start' stop')

namespace Node

theorem valuesOf_cons_eq_bind (ctx : Context) (c : Child) (cs : List Child) :
    valuesOf ctx (c :: cs) =
      (c.value ctx).bind fun v => (valuesOf ctx cs).map fun vs => v :: vs := by
  simp only [valuesOf]
  cases c.value ctx with
  | error f => rfl
  | ok v => cases valuesOf ctx cs <;> rfl

theorem valuesOf_alike {cs cs' : List Child} (h : Forall₂ Child.Alike cs cs') (ctx : Context) :
    SameResult (valuesOf ctx cs) (valuesOf ctx cs') := by
  induction h with
  | nil => exact .ok []
  | cons hc _ ih =>
    rw [valuesOf_cons_eq_bind, valuesOf_cons_eq_bind]
    exact (hc.value ctx).bind fun v => ih.map (v :: ·)

theorem interpret_alike {i : Option Interpreter} (hi : ∀ f, i = some f → f.Blind)
    {cs cs' : List Child} (h : Forall₂ Child.Alike cs cs') (ctx : Context) :
    SameResult (interpret i ctx cs) (interpret i ctx cs') := by
  cases i with
  | some f => exact hi f rfl ctx h
  | none => exact (valuesOf_alike h ctx).map Value.list

variable {Q : Interpreter → Prop}

theorem Alike.token {n n' : Node} (h : Alike Q n n') : n'.token = n.token := by
  cases h <;> rfl

mutual

/-- Nodes that are the same but for their places have the same value. -/
theorem Alike.value (hQ : ∀ f, Q f → f.Blind) : (n : Node) → {n' : Node} → Alike Q n n' →
    ∀ ctx, SameResult (n.value ctx) (n'.value ctx)
  | .leaf _ v _ _, _, .leaf, _ => .ok v
  | .branch _ cs _ _ _, _, .branch hi hcs, ctx =>
    interpret_alike (fun f hf => hQ f (hi f hf)) (views_alike hQ cs hcs) ctx

theorem views_alike (hQ : ∀ f, Q f → f.Blind) : (ns : List Node) → {ns' : List Node} →
    Forall₂ (Alike Q) ns ns' → Forall₂ Child.Alike (views ns) (views ns')
  | [], _, .nil => .nil
  | n :: ns, _, .cons h hs => .cons ⟨h.token, h.value hQ n⟩ (views_alike hQ ns hs)

end

theorem exists_of_valuesOf_eq_error {ctx : Context} {cs : List Child} {f : Fault}
    (h : valuesOf ctx cs = .error f) : ∃ c ∈ cs, c.value ctx = .error f := by
  induction cs with
  | nil => cases h
  | cons c cs ih =>
    rw [valuesOf_cons_eq_bind] at h
    cases hc : c.value ctx with
    | error g =>
      rw [hc] at h
      cases h
      exact ⟨c, List.mem_cons_self, hc⟩
    | ok v =>
      cases hcs : valuesOf ctx cs with
      | ok vs =>
        rw [hc, hcs] at h
        cases h
      | error g =>
        rw [hc, hcs] at h
        cases h
        obtain ⟨c', hmem, hc'⟩ := ih hcs
        exact ⟨c', List.mem_cons_of_mem c hmem, hc'⟩

mutual

/-- The fault of a node without a value was raised by an interpreter below it. -/
theorem Alike.raises : (n : Node) → {n' : Node} → Alike Q n n' → ∀ {ctx f}, n.value ctx = .error f →
    ∃ i, Q i ∧ Interpreter.Raises i f
  | .leaf _ _ _ _, _, .leaf, _, _, h => by cases h
  | .branch _ cs i _ _, _, .branch hi hcs, ctx, f, h => by
    -- An interpreter may evaluate its children in any context, or not at all.
    by_cases hchild : ∃ c ∈ views cs, ∃ ctx', c.value ctx' = .error f
    · obtain ⟨c, hc, ctx', hvalue⟩ := hchild
      exact views_raise cs hcs hc hvalue
    · have hown : ∀ c ∈ views cs, ∀ ctx', c.value ctx' ≠ .error f := fun c hc ctx' hvalue =>
        hchild ⟨c, hc, ctx', hvalue⟩
      change interpret i ctx (views cs) = .error f at h
      cases i with
      | some i => exact ⟨i, hi i rfl, ctx, views cs, h, hown⟩
      | none =>
        have hvalues : valuesOf ctx (views cs) = .error f := by
          cases hvs : valuesOf ctx (views cs) with
          | ok vs =>
            rw [interpret, hvs] at h
            cases h
          | error g =>
            rw [interpret, hvs] at h
            cases h
            rfl
        obtain ⟨c, hc, hvalue⟩ := exists_of_valuesOf_eq_error hvalues
        exact absurd hvalue (hown c hc ctx)

theorem views_raise : (ns : List Node) → {ns' : List Node} → Forall₂ (Alike Q) ns ns' →
    ∀ {c ctx f}, c ∈ views ns → c.value ctx = .error f → ∃ i, Q i ∧ Interpreter.Raises i f
  | [], _, _, _, _, _, hc, _ => by cases hc
  | n :: ns, _, .cons h hs, c, ctx, f, hc, hvalue => by
    rcases List.mem_cons.mp hc with rfl | hc
    · exact h.raises n hvalue
    · exact views_raise ns hs hc hvalue

end

end Node

/-! ### Builders -/

/-- The builder looks at no places, and the interpreters it puts into nodes are in `Q`. -/
def Builder.Blind (Q : Interpreter → Prop) (build : Builder) : Prop :=
  ∀ ⦃nodes nodes'⦄, Forall₂ (Node.Alike Q) nodes nodes' →
    Option.Rel (Node.Alike Q) (build nodes) (build nodes')

namespace Builder

variable {Q : Interpreter → Prop}

theorem rel_getElem? {α : Type} {R : α → α → Prop} {xs ys : List α} (h : Forall₂ R xs ys) (i : Nat) :
    Option.Rel R xs[i]? ys[i]? := by
  induction h generalizing i with
  | nil => exact .none
  | cons hxy _ ih =>
    cases i with
    | zero => exact .some hxy
    | succ i => simpa using ih i

theorem rel_head? {α : Type} {R : α → α → Prop} {xs ys : List α} (h : Forall₂ R xs ys) :
    Option.Rel R xs.head? ys.head? := by
  cases h with
  | nil => exact .none
  | cons hxy _ => exact .some hxy

theorem rel_getLast? {α : Type} {R : α → α → Prop} {xs ys : List α} (h : Forall₂ R xs ys) :
    Option.Rel R xs.getLast? ys.getLast? := by
  rw [List.getLast?_eq_head?_reverse, List.getLast?_eq_head?_reverse]
  exact rel_head? (List.rel_reverse h)

theorem blind_discard : discard.Blind Q := fun _ _ _ => .none

theorem blind_select (i : Nat) : (select i).Blind Q := fun _ _ h => rel_getElem? h i

theorem blind_group {token : String} {i : Option Interpreter} (hi : ∀ f, i = some f → Q f) :
    (group token i).Blind Q := fun _ _ h => .some (.branch hi h)

theorem blind_concatenate (hQ : ∀ f, Q f → f.Blind) : concatenate.Blind Q := by
  intro nodes nodes' h
  have hhead := rel_head? h
  have hlast := rel_getLast? h
  have hvalues := Node.valuesOf_alike (Node.views_alike hQ nodes h) .none
  revert hhead hlast hvalues
  unfold concatenate
  generalize nodes.head? = a, nodes'.head? = a', nodes.getLast? = b, nodes'.getLast? = b',
    Node.valuesOf .none (Node.views nodes) = x, Node.valuesOf .none (Node.views nodes') = x'
  intro hhead hlast hvalues
  cases hhead with
  | none => exact .none
  | some _ =>
    cases hlast with
    | none => exact .none
    | some _ =>
      cases hvalues with
      | ok values => exact .some .leaf
      | error _ => exact .none

mutual

theorem flatten_alike : (n : Node) → {n' : Node} → Node.Alike Q n n' →
    Forall₂ (Node.Alike Q) (flatten n) (flatten n')
  | .leaf _ _ _ _, _, .leaf => .cons .leaf .nil
  | .branch token cs i _ _, _, .branch hi hcs => by
    simp only [flatten]
    split
    · exact flattenAll_alike cs hcs
    · exact .cons (.branch hi hcs) .nil

theorem flattenAll_alike : (ns : List Node) → {ns' : List Node} → Forall₂ (Node.Alike Q) ns ns' →
    Forall₂ (Node.Alike Q) (flattenAll ns) (flattenAll ns')
  | [], _, .nil => .nil
  | n :: ns, _, .cons h hs => List.rel_append (flatten_alike n h) (flattenAll_alike ns hs)

end

theorem blind_flatList {token : String} {i : Option Interpreter} (hi : ∀ f, i = some f → Q f) :
    (flatList token i).Blind Q := fun nodes _ h => .some (.branch hi (flattenAll_alike nodes h))

end Builder

end Curtail
