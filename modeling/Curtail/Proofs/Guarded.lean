/-
# Guarded grammars

A parser exposes a rule when it can call it at once, without a sequence in
between. A grammar is guarded when no rule exposes itself, directly or through
others: every circle of rules passes a sequence. Then every call that is not
made by a sequence climbs down a height, and no member stands higher than
twice the weight of the grammar.

The height of a parser is its weight with the weights of all rules it leads to
without a sequence in between. In a guarded grammar a rule does not lead to
itself, so its definition leads to fewer rules than the rule does.

Key definitions: `Parser.exposed`, `Rules.Exposes`, `Grammar.Guarded`,
`Rules.height`.
Key theorems: `Grammar.guarded_of_rank`, `Rules.height_part_lt`,
`Rules.height_definition_lt`, `Grammar.height_le`.
-/
import Curtail.Proofs.Members
import Mathlib.Algebra.BigOperators.Fin
import Mathlib.Algebra.Order.BigOperators.Group.Finset
import Mathlib.Logic.Relation

namespace Curtail

mutual

/-- The rules that a parser can call without a sequence in between. -/
def Parser.exposed : Parser → List Nat
  | .terminal _ => []
  | .leaf _ => []
  | .choice _ ps => exposedAll ps
  | .sequence _ _ _ _ _ _ => []
  | .repetition _ p => p.exposed
  | .sentence p => p.exposed
  | .orEmpty _ p => p.exposed
  | .rule h => [h.id]

def exposedAll : List Parser → List Nat
  | [] => []
  | p :: ps => p.exposed ++ exposedAll ps

end

/-- The definition of rule `i` can call rule `j` without a sequence in between. -/
def Rules.Exposes (rules : Rules) (i j : Nat) : Prop :=
  ∃ p, rules.state i = .defined p ∧ j ∈ p.exposed

/-- Every circle of rules passes a sequence. -/
def Grammar.Guarded (g : Grammar) : Prop := ∀ i, ¬ Relation.TransGen g.rules.Exposes i i

/-- A grammar is guarded if its rules can be ranked so that each exposes lower ones only. -/
theorem Grammar.guarded_of_rank {g : Grammar} (rank : Nat → Nat)
    (h : ∀ i j, g.rules.Exposes i j → rank j < rank i) : g.Guarded := by
  intro i hcircle
  have hlt : ∀ {j}, Relation.TransGen g.rules.Exposes i j → rank j < rank i := by
    intro j hij
    induction hij with
    | single hstep => exact h _ _ hstep
    | tail _ hstep ih => exact Nat.lt_trans (h _ _ hstep) ih
  exact Nat.lt_irrefl _ (hlt hcircle)

/-- Whether a parser is a sequence. -/
def Parser.isSequence : Parser → Bool
  | .sequence _ _ _ _ _ _ => true
  | _ => false

theorem exposed_subset_exposedAll {q : Parser} : ∀ {ps : List Parser}, q ∈ ps →
    q.exposed ⊆ exposedAll ps
  | p :: ps, h, i, hi => by
    rw [exposedAll, List.mem_append]
    rcases List.mem_cons.mp h with rfl | h
    · exact .inl hi
    · exact .inr (exposed_subset_exposedAll h hi)

theorem weight_le_weightAll {q : Parser} : ∀ {ps : List Parser}, q ∈ ps → q.weight ≤ weightAll ps
  | p :: ps, h => by
    rw [weightAll]
    rcases List.mem_cons.mp h with rfl | h
    · exact Nat.le_add_right _ _
    · exact Nat.le_trans (weight_le_weightAll h) (Nat.le_add_left _ _)

/-- What a part exposes is exposed, unless a sequence is in between. -/
theorem Parser.exposed_part {p q : Parser} (hp : p.isSequence = false) (hq : q ∈ p.parts) :
    q.exposed ⊆ p.exposed := by
  cases p with
  | terminal _ => cases hq
  | leaf _ => cases hq
  | choice _ ps => exact exposed_subset_exposedAll hq
  | sequence _ _ _ _ _ _ => cases hp
  | repetition _ p => rw [List.mem_singleton.mp hq]; exact List.Subset.refl _
  | sentence p => rw [List.mem_singleton.mp hq]; exact List.Subset.refl _
  | orEmpty _ p => rw [List.mem_singleton.mp hq]; exact List.Subset.refl _
  | rule _ => cases hq

theorem Parser.weight_part_lt {p q : Parser} (hq : q ∈ p.parts) : q.weight < p.weight := by
  cases p with
  | terminal _ => cases hq
  | leaf _ => cases hq
  | choice _ ps => exact Nat.lt_one_add_iff.mpr (weight_le_weightAll hq)
  | sequence _ _ _ _ _ ps => exact Nat.lt_one_add_iff.mpr (weight_le_weightAll hq)
  | repetition _ p => rw [List.mem_singleton.mp hq, weight]; omega
  | sentence p => rw [List.mem_singleton.mp hq, weight]; omega
  | orEmpty _ p => rw [List.mem_singleton.mp hq, weight]; omega
  | rule _ => cases hq

namespace Rules

/-- The weight of the definition of a rule. -/
def weightAt (rules : Rules) (id : Nat) : Nat :=
  match rules.state id with
  | .defined p => p.weight
  | _ => 0

theorem weightAt_of_defined {rules : Rules} {id : Nat} {p : Parser}
    (h : rules.state id = .defined p) : rules.weightAt id = p.weight := by
  simp only [weightAt, h]

open Classical in
/-- The rules of the table that some rules lead to without a sequence in between. -/
noncomputable def reached (rules : Rules) (ids : List Nat) : Finset Nat :=
  (Finset.range rules.entries.length).filter fun j =>
    ∃ i ∈ ids, Relation.ReflTransGen rules.Exposes i j

/-- The weight of a parser with that of all rules it leads to without a sequence in between. -/
noncomputable def height (rules : Rules) (p : Parser) : Nat :=
  p.weight + ∑ j ∈ rules.reached p.exposed, rules.weightAt j

variable {rules : Rules}

theorem mem_reached {ids : List Nat} {j : Nat} : j ∈ rules.reached ids ↔
    j < rules.entries.length ∧ ∃ i ∈ ids, Relation.ReflTransGen rules.Exposes i j := by
  simp [reached]

theorem reached_mono {ids ids' : List Nat} (h : ids ⊆ ids') :
    rules.reached ids ⊆ rules.reached ids' := by
  intro j hj
  obtain ⟨hlt, i, hi, hij⟩ := mem_reached.mp hj
  exact mem_reached.mpr ⟨hlt, i, h hi, hij⟩

/-- A part is lower than its parser, unless that is a sequence. -/
theorem height_part_lt {p q : Parser} (hp : p.isSequence = false) (hq : q ∈ p.parts) :
    rules.height q < rules.height p := by
  have hsum := Finset.sum_le_sum_of_subset (f := rules.weightAt)
    (show rules.reached q.exposed ⊆ rules.reached p.exposed from
      reached_mono (Parser.exposed_part hp hq))
  have hweight := Parser.weight_part_lt hq
  unfold height
  omega

/-- In a guarded grammar a definition is lower than the handles to its rule. -/
theorem height_definition_lt (hg : ∀ i, ¬ Relation.TransGen rules.Exposes i i) {h : Handle}
    {q : Parser} (hq : rules.state h.id = .defined q) : rules.height q < rules.height (.rule h) := by
  have hlt : h.id < rules.entries.length := (exists_of_defined hq).1
  have hself : h.id ∉ rules.reached q.exposed := by
    intro hmem
    obtain ⟨-, i, hi, hreach⟩ := mem_reached.mp hmem
    exact hg h.id (Relation.TransGen.head' ⟨q, hq, hi⟩ hreach)
  have hsub : insert h.id (rules.reached q.exposed) ⊆ rules.reached (Parser.rule h).exposed := by
    intro j hj
    rcases Finset.mem_insert.mp hj with rfl | hj
    · exact mem_reached.mpr ⟨hlt, _, List.mem_singleton.mpr rfl, .refl⟩
    · obtain ⟨hj, i, hi, hreach⟩ := mem_reached.mp hj
      exact mem_reached.mpr ⟨hj, _, List.mem_singleton.mpr rfl, .head ⟨q, hq, hi⟩ hreach⟩
  have hsum := Finset.sum_le_sum_of_subset (f := rules.weightAt) hsub
  rw [Finset.sum_insert hself, weightAt_of_defined hq] at hsum
  unfold height
  rw [Parser.weight]
  omega

/-- The weight of a rule: that of its definition. -/
def ruleWeight (rule : Rule) : Nat :=
  match rule.state with
  | .defined p => p.weight
  | _ => 0

theorem weightAll_definitions (entries : List Rule) :
    weightAll (definitions ⟨entries⟩) = (entries.map ruleWeight).sum := by
  unfold definitions
  induction entries with
  | nil => rfl
  | cons rule entries ih =>
    rw [List.map_cons, List.sum_cons, ← ih]
    unfold ruleWeight
    cases hstate : rule.state <;> simp [hstate, weightAll]

theorem sum_weightAt (rules : Rules) :
    ∑ j ∈ Finset.range rules.entries.length, rules.weightAt j = weightAll rules.definitions := by
  rw [weightAll_definitions, Finset.sum_range, ← Fin.sum_univ_fun_getElem]
  apply Finset.sum_congr rfl
  intro j _
  simp [weightAt, ruleWeight, state]

end Rules

namespace Grammar

variable {g : Grammar}

theorem weight_eq (g : Grammar) : g.weight =
    g.root.weight + ∑ j ∈ Finset.range g.rules.entries.length, g.rules.weightAt j := by
  rw [g.rules.sum_weightAt]
  rfl

theorem weightAt_le (g : Grammar) (id : Nat) : g.rules.weightAt id ≤ g.weight := by
  by_cases hid : id < g.rules.entries.length
  · have := Finset.single_le_sum (f := g.rules.weightAt) (fun _ _ => Nat.zero_le _)
      (Finset.mem_range.mpr hid)
    rw [weight_eq]
    omega
  · have : g.rules.weightAt id = 0 := by
      have hnone : g.rules.entries[id]? = none := List.getElem?_eq_none (by omega)
      simp [Rules.weightAt, Rules.state, hnone]
    omega

/-- Members are no heavier than the grammar. -/
theorem weight_le_of_mem {x : Parser} (h : x ∈ g.members) : x.weight ≤ g.weight := by
  rcases mem_members.mp h with h | ⟨id, p, hp, h⟩
  · have := g.root.weight_le_of_mem h
    rw [weight_eq]
    omega
  · have := p.weight_le_of_mem h
    have := g.weightAt_le id
    rw [Rules.weightAt_of_defined hp] at this
    omega

/-- No member stands higher than twice the weight of the grammar. -/
theorem height_le {p : Parser} (h : p ∈ g.members) : g.rules.height p ≤ 2 * g.weight := by
  have hrange : g.rules.reached p.exposed ⊆ Finset.range g.rules.entries.length := fun j hj =>
    Finset.mem_range.mpr (Rules.mem_reached.mp hj).1
  have hsum := Finset.sum_le_sum_of_subset (f := g.rules.weightAt) hrange
  have hweight := weight_le_of_mem h
  have hall := g.weight_eq
  unfold Rules.height
  omega

end Grammar

end Curtail
