/-
# The nodes that parsers build

What node a match can carry is settled by the parser alone, whatever text it
read: a sequence builds a node of those of its parts, a rule has one of those of
its definition. To know the nodes of a grammar whose rules call each other, it
is enough to guess for every rule what its nodes are, and to check for every
definition, once, that it builds no other nodes if the guess is right.

Key definitions: `Terminal.Makes`, `Builds`, `Rules.Supports`.
Key theorems: `Terminal.makes_of_mem_read`, `Derives.builds`,
`Builds.sequence_parts`, `Builds.repeated`.
-/
import Curtail.Proofs.Soundness
import Curtail.Proofs.Tokens

namespace Curtail

/-! ### Leaves -/

namespace Terminal

/-- The tokens and values of the leaves that a terminal makes when it reads a token. -/
inductive Makes : Terminal → String → Value → Prop
  | integer (n : Int64) : Makes .integer "INT" (.int n)
  | fraction (x : Float) : Makes .fraction "FLOAT" (.float x)
  | truth (b : Bool) : Makes .truth "BOOL" (.bool b)
  | quoted (s : String) : Makes .quoted "STRING" (.text s)
  | rune (c : Char) (token : String) : Makes (.rune c token) token (.char c)
  | word (w token : String) (v : Value) : Makes (.word w token v) token v
  | nil (w : String) : Makes (.nil w) "NIL" .nil

variable {t : Terminal} {r : Reader} {m : Match} {token : String} {v : Value}

theorem node_of_mem_leaf {start : Position} {next : Reader}
    (hm : m ∈ (leaf token v start next).results.items) :
    m.node = some (.leaf token v start next.cursor) := by
  obtain rfl := List.mem_singleton.mp hm
  rfl

theorem node_of_mem_leafOf {read? : Option (Position × Reader)}
    (hm : m ∈ (leafOf token v read?).results.items) :
    ∃ start stop, m.node = some (.leaf token v start stop) := by
  cases read? with
  | none => cases hm
  | some x => exact ⟨_, _, node_of_mem_leaf hm⟩

/-- Whatever token a terminal reads becomes a leaf, none is left without a node. -/
theorem makes_of_mem_read (ht : t.isToken = true) (hm : m ∈ (t.read r).results.items) :
    ∃ token v start stop, t.Makes token v ∧ m.node = some (.leaf token v start stop) := by
  cases t with
  | integer =>
    simp only [read, readInteger] at hm
    split at hm
    · cases hm
    · split at hm
      · cases hm
      · split at hm
        · exact ⟨_, _, _, _, .integer _, node_of_mem_leaf hm⟩
        · cases hm
  | fraction =>
    simp only [read, readFraction] at hm
    split at hm
    · cases hm
    · exact ⟨_, _, _, _, .fraction _, node_of_mem_leaf hm⟩
  | truth =>
    simp only [read, readTruth] at hm
    split at hm
    · cases hm
    · exact ⟨_, _, _, _, .truth _, node_of_mem_leaf hm⟩
  | quoted =>
    simp only [read, readQuoted] at hm
    split at hm
    · cases hm
    · split at hm
      · exact ⟨_, _, _, _, .quoted _, node_of_mem_leaf hm⟩
      · cases hm
  | rune c token =>
    obtain ⟨start, stop, hnode⟩ := node_of_mem_leafOf hm
    exact ⟨_, _, start, stop, .rune c token, hnode⟩
  | word w token v =>
    obtain ⟨start, stop, hnode⟩ := node_of_mem_leafOf hm
    exact ⟨_, _, start, stop, .word w token v, hnode⟩
  | nil w =>
    obtain ⟨start, stop, hnode⟩ := node_of_mem_leafOf hm
    exact ⟨_, _, start, stop, .nil w, hnode⟩
  | pattern _ _ _ _ | finish | anyChar | empty => cases ht

end Terminal

/-! ### What can be built -/

mutual

/-- A parser can build a node, or match without one, if the rules have the nodes that `S` says. -/
inductive Builds (S : Nat → Option Node → Prop) : Parser → Option Node → Prop
  | terminal {t : Terminal} {r : Reader} {m : Match} :
    m ∈ (t.read r).results.items → Builds S (.terminal t) m.node
  | leaf {l : Leaf} {d : Tally} {r : Reader} {s : Session} {m : Match} :
    m ∈ (l.answer d r s).1.results.items → Builds S (.leaf l) m.node
  | choice {name : String} {ps : List Parser} {q : Parser} {node? : Option Node} :
    q ∈ ps → Builds S q node? → Builds S (.choice name ps) node?
  | sequence {key : Key} {label : Option String} {build : Builder} {accepts : Nat → Bool}
      {lookup : Nat → Option Nat} {parts : List Parser} {found : List (Option Node)} :
    BuildsAll S (Parser.pick lookup parts) found → accepts found.length = true →
      Builds S (.sequence key label build accepts lookup parts)
        (build (found.flatMap Option.toList))
  | repetition {b : Run.Bounds} {p : Parser} {found : List (Option Node)} :
    BuildsAll S (fun _ => some p) found → b.least ≤ found.length →
      (∀ most, b.most = some most → found.length ≤ most) →
      Builds S (.repetition b p)
        (if found.length = 0 then none else b.build (found.flatMap Option.toList))
  | sentence {p : Parser} {node? : Option Node} : Builds S p node? → Builds S (.sentence p) node?
  | orEmpty {token : String} {p : Parser} {node? : Option Node} :
    Builds S p node? → Builds S (.orEmpty token p) node?
  | emptyGroup {token : String} {p : Parser} {place : Position} :
    Builds S (.orEmpty token p) (some (.emptyGroup token place none))
  | rule {h : Handle} {node? : Option Node} : S h.id node? → Builds S (.rule h) node?

/-- The first parsers of a row can build these nodes, one each. -/
inductive BuildsAll (S : Nat → Option Node → Prop) :
    (Nat → Option Parser) → List (Option Node) → Prop
  | nil {lookup : Nat → Option Parser} : BuildsAll S lookup []
  | snoc {lookup : Nat → Option Parser} {found : List (Option Node)} {q : Parser}
      {node? : Option Node} :
    BuildsAll S lookup found → lookup found.length = some q → Builds S q node? →
      BuildsAll S lookup (found ++ [node?])

end

variable {S : Nat → Option Node → Prop} {rules : Rules}

/-! ### From derivations -/

section Derivations

/-- The definition of every rule builds the nodes that are said of the rule. -/
def Rules.Supports (rules : Rules) (S : Nat → Option Node → Prop) : Prop :=
  ∀ id q node?, rules.state id = .defined q → Builds S q node? → S id node?

mutual

/-- **What is derived is built**, if what is said of the rules holds of their definitions. -/
theorem Derives.builds (hS : rules.Supports S) {p : Parser} {r : Reader} {m : Match} :
    Derives rules p r m → Builds S p m.node
  | .terminal h => .terminal h
  | .leaf h => .leaf h
  | .choice hq h => .choice hq (h.builds hS)
  | .sequence h haccepts => by
    obtain ⟨found, rfl, rfl, hfound⟩ := h.builds hS
    exact .sequence hfound haccepts
  | .repetition h hleast hmost => by
    obtain ⟨found, rfl, rfl, hfound⟩ := h.builds hS
    exact .repetition hfound hleast hmost
  | .sentence h _ => .sentence (h.builds hS)
  | .orEmpty h => .orEmpty (h.builds hS)
  | .emptyGroup => .emptyGroup
  | .rule hq h => .rule (hS _ _ _ hq (h.builds hS))

theorem DerivesChain.builds (hS : rules.Supports S) {lookup : Nat → Option Parser} {r r' : Reader}
    {k : Nat} {nodes : List Node} : DerivesChain rules lookup r k nodes r' →
    ∃ found : List (Option Node), found.length = k ∧ found.flatMap Option.toList = nodes ∧
      BuildsAll S lookup found
  | .nil => ⟨[], rfl, rfl, .nil⟩
  | @DerivesChain.snoc _ _ _ _ _ _ _ m h hq hm => by
    obtain ⟨found, rfl, rfl, hfound⟩ := h.builds hS
    exact ⟨found ++ [m.node], by simp, by simp, hfound.snoc hq (hm.builds hS)⟩

end

end Derivations

/-! ### What was built of what -/

/-- Each node of a row is one of the parser in its place. -/
theorem BuildsAll.getElem {lookup : Nat → Option Parser} {found : List (Option Node)} :
    BuildsAll S lookup found → ∀ i (hi : i < found.length),
      ∃ q, lookup i = some q ∧ Builds S q found[i]
  | .nil => fun i hi => absurd hi (Nat.not_lt_zero i)
  | @BuildsAll.snoc _ _ found q node? h hq hnode => by
    intro i hi
    rw [List.length_append, List.length_singleton] at hi
    rcases Nat.lt_succ_iff_lt_or_eq.mp hi with hlt | rfl
    · rw [List.getElem_append_left hlt]
      exact h.getElem i hlt
    · rw [List.getElem_concat_length rfl]
      exact ⟨q, hq, hnode⟩

namespace Builds

/-- A sequence that needs all of its parts builds its node of theirs, one for each part. -/
theorem sequence_parts {key : Key} {label : Option String} {build : Builder} {n : Nat}
    {parts : List Parser} {node? : Option Node}
    (h : Builds S (.sequence key label build (Draft.between n n) some parts) node?)
    (hn : parts.length = n) :
    ∃ found, List.Forall₂ (Builds S) parts found ∧ node? = build (found.flatMap Option.toList) := by
  cases h with
  | @sequence _ _ _ _ _ _ found hfound haccepts =>
    have hlength : found.length = n := by
      simp only [Draft.between, Bool.and_eq_true, decide_eq_true_eq] at haccepts
      omega
    refine ⟨found, List.forall₂_iff_get.mpr ⟨hn.trans hlength.symm, fun i hi hi' => ?_⟩, rfl⟩
    obtain ⟨q, hq, hbuilds⟩ := hfound.getElem i hi'
    have hpart : parts[i]? = some q := hq
    rw [List.getElem?_eq_getElem hi] at hpart
    rw [List.get_eq_getElem, List.get_eq_getElem, Option.some.inj hpart]
    exact hbuilds

/-- A repetition builds its node of nodes of its part, or none if there is no lap. -/
theorem repeated {b : Run.Bounds} {p : Parser} {node? : Option Node}
    (h : Builds S (.repetition b p) node?) :
    ∃ found : List (Option Node), (∀ lap ∈ found, Builds S p lap) ∧
      node? = if found.length = 0 then none else b.build (found.flatMap Option.toList) := by
  cases h with
  | @repetition _ _ found hfound =>
    refine ⟨found, fun lap hlap => ?_, rfl⟩
    obtain ⟨i, hi, rfl⟩ := List.getElem_of_mem hlap
    obtain ⟨q, hq, hbuilds⟩ := hfound.getElem i hi
    cases hq
    exact hbuilds

/-- A terminal that reads tokens builds leaves. -/
theorem terminal_leaf {t : Terminal} (ht : t.isToken = true) {node? : Option Node}
    (h : Builds S (.terminal t) node?) :
    ∃ token v start stop, t.Makes token v ∧ node? = some (.leaf token v start stop) := by
  cases h with
  | terminal hm => exact t.makes_of_mem_read ht hm

end Builds

end Curtail
