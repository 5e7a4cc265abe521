/-
# The parts of a grammar

The members of a grammar are its root, the definitions of its rules, their
parts, the parts of those and so on: everything that a parse can ever call.
There are as many as the grammar's weight.

Key definitions: `Leaf.Pure`, `Parser.members`, `Rules.Closed`,
`Grammar.members`.
Key theorems: `Grammar.closed_members`, `Grammar.length_members`.
-/
import Curtail.Grammar

namespace Curtail

/-- The parsers that a parser is made of. -/
def Parser.parts : Parser → List Parser
  | .terminal _ => []
  | .leaf _ => []
  | .choice _ ps => ps
  | .sequence _ _ _ _ _ ps => ps
  | .repetition _ p => [p]
  | .sentence p => [p]
  | .orEmpty _ p => [p]
  | .rule _ => []

/-- The key of a sequence. -/
def Parser.key? : Parser → Option Key
  | .sequence key _ _ _ _ _ => some key
  | _ => none

/-- The leaf answers `f`, whatever was called before, and leaves the session alone. -/
def Leaf.Pure (l : Leaf) (f : Reader → Outcome) : Prop := ∀ d r s, l.answer d r s = (f r, s)

/-- A leaf that answers by the reader alone. -/
def Leaf.ofAnswer (name : String) (f : Reader → Outcome) : Leaf where
  name
  answer _ r s := (f r, s)

theorem Leaf.pure_ofAnswer (name : String) (f : Reader → Outcome) : (ofAnswer name f).Pure f :=
  fun _ _ _ => rfl

/-- A leaf that reads what a terminal does. -/
def Leaf.ofTerminal (t : Terminal) : Leaf := .ofAnswer t.name t.read

theorem Leaf.pure_ofTerminal (t : Terminal) : (Leaf.ofTerminal t).Pure t.read := pure_ofAnswer _ _

mutual

/-- A parser with its parts, their parts and so on. -/
def Parser.members : Parser → List Parser
  | .terminal t => [.terminal t]
  | .leaf l => [.leaf l]
  | .choice name ps => .choice name ps :: membersAll ps
  | .sequence key label build accepts lookup ps =>
    .sequence key label build accepts lookup ps :: membersAll ps
  | .repetition b p => .repetition b p :: p.members
  | .sentence p => .sentence p :: p.members
  | .orEmpty token p => .orEmpty token p :: p.members
  | .rule h => [.rule h]

def membersAll : List Parser → List Parser
  | [] => []
  | p :: ps => p.members ++ membersAll ps

end

mutual

theorem Parser.length_members : (p : Parser) → p.members.length = p.weight
  | .terminal _ => rfl
  | .leaf _ => rfl
  | .choice _ ps => by
    simp only [Parser.members, Parser.weight, List.length_cons, length_membersAll ps]; omega
  | .sequence _ _ _ _ _ ps => by
    simp only [Parser.members, Parser.weight, List.length_cons, length_membersAll ps]; omega
  | .repetition _ p => by
    simp only [Parser.members, Parser.weight, List.length_cons, p.length_members]; omega
  | .sentence p => by
    simp only [Parser.members, Parser.weight, List.length_cons, p.length_members]; omega
  | .orEmpty _ p => by
    simp only [Parser.members, Parser.weight, List.length_cons, p.length_members]; omega
  | .rule _ => rfl

theorem length_membersAll : (ps : List Parser) → (membersAll ps).length = weightAll ps
  | [] => rfl
  | p :: ps => by
    simp only [membersAll, weightAll, List.length_append, p.length_members, length_membersAll ps]

end

theorem Parser.mem_members_self (p : Parser) : p ∈ p.members := by
  cases p <;> simp [members]

theorem mem_membersAll {q : Parser} : ∀ {ps : List Parser}, q ∈ ps → q ∈ membersAll ps
  | p :: ps, h => by
    rw [membersAll, List.mem_append]
    rcases List.mem_cons.mp h with rfl | h
    · exact .inl q.mem_members_self
    · exact .inr (mem_membersAll h)

/-- The parts of a parser are among its members. -/
theorem Parser.part_mem_members {p q : Parser} (h : q ∈ p.parts) : q ∈ p.members := by
  cases p with
  | terminal _ => cases h
  | leaf _ => cases h
  | choice _ ps => exact List.mem_cons_of_mem _ (mem_membersAll h)
  | sequence _ _ _ _ _ ps => exact List.mem_cons_of_mem _ (mem_membersAll h)
  | repetition _ p =>
    rw [List.mem_singleton.mp h]
    exact List.mem_cons_of_mem _ p.mem_members_self
  | sentence p =>
    rw [List.mem_singleton.mp h]
    exact List.mem_cons_of_mem _ p.mem_members_self
  | orEmpty _ p =>
    rw [List.mem_singleton.mp h]
    exact List.mem_cons_of_mem _ p.mem_members_self
  | rule _ => cases h

mutual

/-- The parts of a member are members. -/
theorem Parser.members_closed : (p : Parser) → ∀ {x q : Parser}, x ∈ p.members → q ∈ x.parts →
    q ∈ p.members
  | .terminal _, x, q, hx, hq => by rw [List.mem_singleton.mp hx] at hq; cases hq
  | .leaf _, x, q, hx, hq => by rw [List.mem_singleton.mp hx] at hq; cases hq
  | .choice _ ps, x, q, hx, hq => by
    rcases List.mem_cons.mp hx with rfl | hx
    · exact Parser.part_mem_members hq
    · exact List.mem_cons_of_mem _ (membersAll_closed ps hx hq)
  | .sequence _ _ _ _ _ ps, x, q, hx, hq => by
    rcases List.mem_cons.mp hx with rfl | hx
    · exact Parser.part_mem_members hq
    · exact List.mem_cons_of_mem _ (membersAll_closed ps hx hq)
  | .repetition _ p, x, q, hx, hq => by
    rcases List.mem_cons.mp hx with rfl | hx
    · exact Parser.part_mem_members hq
    · exact List.mem_cons_of_mem _ (p.members_closed hx hq)
  | .sentence p, x, q, hx, hq => by
    rcases List.mem_cons.mp hx with rfl | hx
    · exact Parser.part_mem_members hq
    · exact List.mem_cons_of_mem _ (p.members_closed hx hq)
  | .orEmpty _ p, x, q, hx, hq => by
    rcases List.mem_cons.mp hx with rfl | hx
    · exact Parser.part_mem_members hq
    · exact List.mem_cons_of_mem _ (p.members_closed hx hq)
  | .rule _, x, q, hx, hq => by rw [List.mem_singleton.mp hx] at hq; cases hq

theorem membersAll_closed : (ps : List Parser) → ∀ {x q : Parser}, x ∈ membersAll ps →
    q ∈ x.parts → q ∈ membersAll ps
  | [], x, q, hx, _ => by cases hx
  | p :: ps, x, q, hx, hq => by
    rw [membersAll, List.mem_append] at hx ⊢
    rcases hx with hx | hx
    · exact .inl (p.members_closed hx hq)
    · exact .inr (membersAll_closed ps hx hq)

end

mutual

/-- Members are no heavier than the parser. -/
theorem Parser.weight_le_of_mem : (p : Parser) → ∀ {x : Parser}, x ∈ p.members → x.weight ≤ p.weight
  | .terminal _, x, hx => Nat.le_of_eq (congrArg Parser.weight (List.mem_singleton.mp hx))
  | .leaf _, x, hx => Nat.le_of_eq (congrArg Parser.weight (List.mem_singleton.mp hx))
  | .choice _ ps, x, hx => by
    rcases List.mem_cons.mp hx with rfl | hx
    · exact Nat.le_refl _
    · exact Nat.le_trans (weightAll_le_of_mem ps hx) (Nat.le_add_left _ _)
  | .sequence _ _ _ _ _ ps, x, hx => by
    rcases List.mem_cons.mp hx with rfl | hx
    · exact Nat.le_refl _
    · exact Nat.le_trans (weightAll_le_of_mem ps hx) (Nat.le_add_left _ _)
  | .repetition _ p, x, hx => by
    rcases List.mem_cons.mp hx with rfl | hx
    · exact Nat.le_refl _
    · exact Nat.le_trans (p.weight_le_of_mem hx) (Nat.le_add_left _ _)
  | .sentence p, x, hx => by
    rcases List.mem_cons.mp hx with rfl | hx
    · exact Nat.le_refl _
    · exact Nat.le_trans (p.weight_le_of_mem hx) (Nat.le_add_left _ _)
  | .orEmpty _ p, x, hx => by
    rcases List.mem_cons.mp hx with rfl | hx
    · exact Nat.le_refl _
    · exact Nat.le_trans (p.weight_le_of_mem hx) (Nat.le_add_left _ _)
  | .rule _, x, hx => Nat.le_of_eq (congrArg Parser.weight (List.mem_singleton.mp hx))

theorem weightAll_le_of_mem : (ps : List Parser) → ∀ {x : Parser}, x ∈ membersAll ps →
    x.weight ≤ weightAll ps
  | [], x, hx => by cases hx
  | p :: ps, x, hx => by
    rw [membersAll, List.mem_append] at hx
    rcases hx with hx | hx
    · exact Nat.le_trans (p.weight_le_of_mem hx) (Nat.le_add_right _ _)
    · exact Nat.le_trans (weightAll_le_of_mem ps hx) (Nat.le_add_left _ _)

end

/-- A set of parsers that nothing called from within leaves. -/
structure Rules.Closed (rules : Rules) (P : Parser → Prop) : Prop where
  part : ∀ {p q}, P p → q ∈ p.parts → P q
  rule : ∀ {h q}, P (.rule h) → rules.state h.id = .defined q → P q

theorem length_le_weightAll (ps : List Parser) : ps.length ≤ weightAll ps := by
  induction ps with
  | nil => exact Nat.le_refl 0
  | cons p ps ih =>
    have hp : 1 ≤ p.weight := by cases p <;> simp [Parser.weight]
    simp only [weightAll, List.length_cons]
    omega

/-- A rule that has a definition is in the table. -/
theorem Rules.exists_of_defined {rules : Rules} {id : Nat} {p : Parser}
    (h : rules.state id = .defined p) : ∃ hlt : id < rules.entries.length,
      rules.entries[id].state = .defined p := by
  unfold state at h
  cases hid : rules.entries[id]? with
  | none => simp [hid] at h
  | some rule =>
    obtain ⟨hlt, hget⟩ := List.getElem?_eq_some_iff.mp hid
    refine ⟨hlt, ?_⟩
    rw [hget]
    simpa [hid] using h

theorem Rules.mem_definitions {rules : Rules} {p : Parser} :
    p ∈ rules.definitions ↔ ∃ id, rules.state id = .defined p := by
  unfold definitions
  rw [List.mem_filterMap]
  constructor
  · rintro ⟨rule, hrule, hp⟩
    obtain ⟨id, hlt, rfl⟩ := List.mem_iff_getElem.mp hrule
    split at hp
    · rename_i q hq
      obtain rfl := Option.some.inj hp
      exact ⟨id, by simp [state, hlt, hq]⟩
    · cases hp
  · rintro ⟨id, hp⟩
    obtain ⟨hlt, hget⟩ := exists_of_defined hp
    exact ⟨_, List.getElem_mem hlt, by rw [hget]⟩

theorem mem_membersAll_iff {x : Parser} {ps : List Parser} :
    x ∈ membersAll ps ↔ ∃ p ∈ ps, x ∈ p.members := by
  induction ps with
  | nil => simp [membersAll]
  | cons p ps ih => simp [membersAll, ih]

namespace Grammar

/-- The members of the root and of all definitions. -/
def members (g : Grammar) : List Parser := membersAll (g.root :: g.rules.definitions)

theorem root_mem_members (g : Grammar) : g.root ∈ g.members :=
  mem_membersAll List.mem_cons_self

/-- A member is one of the root or of a definition. -/
theorem mem_members {g : Grammar} {x : Parser} : x ∈ g.members ↔
    x ∈ g.root.members ∨ ∃ id p, g.rules.state id = .defined p ∧ x ∈ p.members := by
  unfold members
  rw [mem_membersAll_iff]
  constructor
  · rintro ⟨p, hp, hx⟩
    rcases List.mem_cons.mp hp with rfl | hp
    · exact .inl hx
    · obtain ⟨id, hid⟩ := Rules.mem_definitions.mp hp
      exact .inr ⟨id, p, hid, hx⟩
  · rintro (hx | ⟨id, p, hid, hx⟩)
    · exact ⟨g.root, List.mem_cons_self, hx⟩
    · exact ⟨p, List.mem_cons_of_mem _ (Rules.mem_definitions.mpr ⟨id, hid⟩), hx⟩

theorem definition_mem_members {g : Grammar} {id : Nat} {p : Parser}
    (h : g.rules.state id = .defined p) : p ∈ g.members :=
  mem_members.mpr (.inr ⟨id, p, h, p.mem_members_self⟩)

/-- Whatever a member calls is a member. -/
theorem closed_members (g : Grammar) : g.rules.Closed (· ∈ g.members) where
  part {p q} hp hq := by
    rcases mem_members.mp hp with hp | ⟨id, top, hdef, hp⟩
    · exact mem_members.mpr (.inl (g.root.members_closed hp hq))
    · exact mem_members.mpr (.inr ⟨id, top, hdef, top.members_closed hp hq⟩)
  rule _ h := definition_mem_members h

theorem length_members (g : Grammar) : g.members.length = g.weight := length_membersAll _

end Grammar

end Curtail
