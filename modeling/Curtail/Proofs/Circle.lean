/-
# Circles of letters

In a circle of `k` rules, rule `i` matches what the next rule round the circle
matches, with the letter `link i` after it, or the letter `base i` alone. Its
first rule decides a simple language: some base `j`, the links from `j - 1`
down to `0`, then whole rounds of all links from `k - 1` down to `0`. A circle
is a ring if its rules are counted backwards, and it decides that language
exactly, whatever its size.

Key definitions: `Circle`, `Circle.grammar`, `Circle.word`, `Circle.tree`.
Key theorems: `Circle.ring_in`, `Circle.indices_eq_rounds`,
`Circle.parse_decides`.
-/
import Curtail.Proofs.Letters
import Curtail.Proofs.Ring

namespace Curtail

/-- Rules in a circle, over letters. Only indices below `size` count. -/
structure Circle where
  size : Nat
  pos : 0 < size
  name : Nat → String
  label : Nat → Option String
  token : Nat → String
  interpreter : Nat → Option Interpreter
  /-- The letter that rule `i` may start with. -/
  base : Nat → Char
  baseToken : Nat → String
  /-- The letter that rule `i` adds to what the next rule matches. -/
  link : Nat → Char
  linkToken : Nat → String
  distinct : ∀ i < size, ∀ j < size, base i = base j → i = j

namespace Circle

section Definitions

variable (C : Circle)

def handle (i : Nat) : Handle := ⟨i, C.name i, false⟩

/-- The definition of rule `i`. -/
def definition (i : Nat) : Parser :=
  .choice (C.name i) [
    .sequence ⟨i⟩ (C.label i) (.group (C.token i) (C.interpreter i)) (Draft.between 2 2) some
      [.rule (C.handle ((i + 1) % C.size)), .terminal (.rune (C.link i) (C.linkToken i))],
    .terminal (.rune (C.base i) (C.baseToken i))]

def rules : Rules := ⟨(List.range C.size).map fun i => ⟨C.name i, .defined (C.definition i)⟩⟩

/-- The grammar of the first rule. -/
def grammar : Grammar := ⟨C.rules, .rule (C.handle 0)⟩

/-- The indices from `j - 1` down to `0`, and `n` times from the last index down to `0`. -/
def rounds (j n : Nat) : List Nat :=
  (List.range j).reverse ++ (List.replicate n (List.range C.size).reverse).flatten

/-- Base `j` with its links, and those of `n` whole rounds. -/
def word (j n : Nat) : List Char := C.base j :: (C.rounds j n).map C.link

/-- A node with one more letter, joined by rule `i`. -/
def join (node : Node) (x : Nat × Letter) : Node :=
  .group (C.token x.1) [node, x.2.leaf (C.linkToken x.1)] (C.interpreter x.1)

/-- The tree over base `j` and the letters of its links, nested to the left. -/
def tree (j n : Nat) (l : Letter) (ls : List Letter) : Node :=
  ((C.rounds j n).zip ls).foldl C.join (l.leaf (C.baseToken j))

/-- The match with one more letter, joined by rule `i`. -/
def add (m : Match) (i : Nat) : Option Match :=
  extend (.group (C.token i) (C.interpreter i)) [(Terminal.rune (C.link i) (C.linkToken i)).find] m

/-- The rule called at level `t`: counted backwards from the first. -/
def rule (t : Nat) : Nat := (C.size - t % C.size) % C.size

/-- The rules of the circle, backwards. -/
def ring : Ring where
  size := C.size
  handle t := C.handle (C.rule t)
  name t := C.name (C.rule t)
  key t := ⟨C.rule t⟩
  label t := C.label (C.rule t)
  build t := .group (C.token (C.rule t)) (C.interpreter (C.rule t))
  tail t := [.terminal (.rune (C.link (C.rule t)) (C.linkToken (C.rule t)))]
  base t := .terminal (.rune (C.base (C.rule t)) (C.baseToken (C.rule t)))
  finds t := [(Terminal.rune (C.link (C.rule t)) (C.linkToken (C.rule t))).find]
  first t := (Terminal.rune (C.base (C.rule t)) (C.baseToken (C.rule t))).find

end Definitions

variable {C : Circle}

/-! ### Counting backwards -/

theorem rule_lt (t : Nat) : C.rule t < C.size := Nat.mod_lt _ C.pos

theorem rule_mod (t : Nat) : C.rule (t % C.size) = C.rule t := by
  unfold rule
  rw [Nat.mod_mod]

theorem rule_of_le {t : Nat} (h : t ≤ C.size) : C.rule t = (C.size - t) % C.size := by
  unfold rule
  rcases Nat.lt_or_eq_of_le h with hlt | rfl
  · rw [Nat.mod_eq_of_lt hlt]
  · rw [Nat.mod_self, Nat.sub_zero, Nat.mod_self, Nat.sub_self, Nat.zero_mod]

/-- From rule `j` the levels count down to the first rule. -/
theorem rule_descend {j x : Nat} (hx : x < j) (hj : j ≤ C.size) :
    C.rule (C.rule j + x + 1) = j - 1 - x := by
  have hpos := C.pos
  have hsame : (C.rule j + x + 1) % C.size = (C.size - j + x + 1) % C.size := by
    rw [rule_of_le hj, Nat.add_assoc, Nat.add_assoc, Nat.mod_add_mod]
  rw [← rule_mod, hsame, rule_mod, rule_of_le (by omega)]
  rw [show C.size - (C.size - j + x + 1) = j - 1 - x by omega]
  exact Nat.mod_eq_of_lt (by omega)

theorem rule_add_self {j : Nat} (hj : j ≤ C.size) : (C.rule j + j) % C.size = 0 := by
  rw [rule_of_le hj, Nat.mod_add_mod, Nat.sub_add_cancel hj, Nat.mod_self]

theorem rule_rule {j : Nat} (hj : j < C.size) : C.rule (C.rule j) = j := by
  rcases Nat.eq_zero_or_pos j with rfl | hpos
  · rw [rule_of_le (Nat.zero_le _), Nat.sub_zero, Nat.mod_self, rule_of_le (Nat.zero_le _),
      Nat.sub_zero, Nat.mod_self]
  · rw [rule_of_le (Nat.le_of_lt hj), rule_mod, rule_of_le (Nat.sub_le _ _),
      Nat.sub_sub_self (Nat.le_of_lt hj), Nat.mod_eq_of_lt hj]

theorem rule_inj {i j : Nat} (hi : i < C.size) (hj : j < C.size) (h : C.rule i = C.rule j) :
    i = j := by
  rw [← rule_rule hi, h, rule_rule hj]

/-- The levels at which the first rule is called, with rule `j` at the first of them that counts. -/
theorem rule_add_mod_eq_zero_iff {j m : Nat} (hj : j < C.size) :
    (C.rule j + m) % C.size = 0 ↔ ∃ n, m = j + n * C.size := by
  have hself := rule_add_self (Nat.le_of_lt hj)
  constructor
  · intro h
    have hmod : m % C.size = j % C.size := Nat.ModEq.add_left_cancel' (C.rule j) (h.trans hself.symm)
    rw [Nat.mod_eq_of_lt hj] at hmod
    refine ⟨m / C.size, ?_⟩
    rw [← hmod, Nat.mul_comm]
    exact (Nat.mod_add_div m C.size).symm
  · rintro ⟨n, rfl⟩
    rw [← Nat.add_assoc, Nat.add_mul_mod_self_right, hself]

/-- Whole rounds after the first call of the first rule the same rules are called again. -/
theorem rule_round {j : Nat} (hj : j < C.size) (n x : Nat) :
    C.rule (C.rule j + (j + n * C.size + x) + 1) = C.rule (x + 1) := by
  rw [← rule_mod, ← rule_mod (x + 1)]
  congr 1
  calc (C.rule j + (j + n * C.size + x) + 1) % C.size
      = (C.rule j + j + (x + 1) + n * C.size) % C.size := by congr 1; omega
    _ = (C.rule j + j + (x + 1)) % C.size := Nat.add_mul_mod_self_right ..
    _ = (x + 1) % C.size := by
      rw [Nat.add_mod, rule_add_self (Nat.le_of_lt hj), Nat.zero_add, Nat.mod_mod]

/-- **The links go round the circle.** The rules called after rule `j`, up to a call of the first. -/
theorem indices_eq_rounds {j : Nat} (hj : j < C.size) (n : Nat) :
    (List.range (j + n * C.size)).map (fun x => C.rule (C.rule j + x + 1)) = C.rounds j n := by
  have hdown : ∀ i ≤ C.size,
      (List.range i).map (fun x => C.rule (C.rule i + x + 1)) = (List.range i).reverse := by
    intro i hi
    rw [List.range_eq_range', List.reverse_range', ← List.range_eq_range']
    apply List.map_congr_left
    intro x hx
    rw [rule_descend (List.mem_range.mp hx) hi, Nat.zero_add]
  induction n with
  | zero => simpa [rounds] using hdown j (Nat.le_of_lt hj)
  | succ n ih =>
    have hround : (List.range C.size).map (fun x => C.rule (C.rule j + (j + n * C.size + x) + 1)) =
        (List.range C.size).reverse := by
      rw [← hdown C.size (Nat.le_refl _)]
      apply List.map_congr_left
      intro x _
      rw [rule_round hj, rule_of_le (Nat.le_refl _), Nat.sub_self, Nat.zero_mod, Nat.zero_add]
    rw [Nat.succ_mul, ← Nat.add_assoc, List.range_add, List.map_append, List.map_map, ih]
    unfold rounds
    rw [List.replicate_succ', List.flatten_append, List.flatten_singleton, ← List.append_assoc,
      ← hround]
    rfl

/-! ### The circle as a ring -/

theorem rule_previous {t : Nat} (ht : t < C.size) :
    C.rule (C.ring.previous t) = (C.rule t + 1) % C.size := by
  have hpos := C.pos
  show C.rule ((t + C.size - 1) % C.size) = _
  rw [rule_mod]
  rcases Nat.eq_zero_or_pos t with rfl | hpos'
  · rw [rule_of_le (by omega), rule_of_le (Nat.zero_le _), Nat.mod_add_mod]
    rw [show C.size - (0 + C.size - 1) = 1 by omega, Nat.sub_zero, Nat.add_mod_left]
  · rw [← rule_mod, show t + C.size - 1 = t - 1 + C.size by omega, Nat.add_mod_right, rule_mod,
      rule_of_le (by omega), rule_of_le (Nat.le_of_lt ht), Nat.mod_add_mod]
    congr 1
    omega

theorem definition_rule {t : Nat} (ht : t < C.size) :
    C.ring.definition t = C.definition (C.rule t) := by
  unfold definition
  rw [← rule_previous ht]
  rfl

theorem state_rules {i : Nat} (hi : i < C.size) : C.rules.state i = .defined (C.definition i) := by
  simp [rules, Rules.state, hi]

theorem link_ring (t : Nat) (m : Match) : C.ring.link t m = C.add m (C.rule t) := rfl

theorem add_eq (m : Match) (i : Nat) : C.add m i =
    ((Terminal.rune (C.link i) (C.linkToken i)).find m.reader).map fun x =>
      ⟨some (.group (C.token i) (m.node.toList ++ x.node.toList) (C.interpreter i)), x.reader⟩ := by
  unfold add extend
  simp only [follow]
  cases (Terminal.rune (C.link i) (C.linkToken i)).find m.reader with
  | none => rfl
  | some x =>
    simp only [Option.bind_some, Option.map_some, List.append_nil]
    rfl

/-- What one more letter makes of a match. -/
theorem add_eq_some_iff {i : Nat} {m x : Match} : C.add m i = some x ↔
    ∃ l, m.reader.letters.head? = some l ∧ l.char = C.link i ∧
      x = ⟨some (.group (C.token i) (m.node.toList ++ [l.leaf (C.linkToken i)]) (C.interpreter i)),
        m.reader.next⟩ := by
  rw [add_eq, Option.map_eq_some_iff]
  constructor
  · rintro ⟨y, hy, rfl⟩
    obtain ⟨l, hl, hc, rfl⟩ := Terminal.find_rune_iff.mp hy
    exact ⟨l, hl, hc, rfl⟩
  · rintro ⟨l, hl, hc, rfl⟩
    exact ⟨_, Terminal.find_rune_iff.mpr ⟨l, hl, hc, rfl⟩, rfl⟩

theorem ahead_of_add {i : Nat} {m x : Match} (h : C.add m i = some x) :
    m.reader.Ahead x.reader ∧ m.stopOffset < x.stopOffset := by
  rw [add_eq] at h
  obtain ⟨y, hy, rfl⟩ := Option.map_eq_some_iff.mp h
  have hon := Terminal.readsOn_rune (C.link i) (C.linkToken i)
  have hahead := hon.ahead hy
  exact ⟨hahead, (hon m.reader y hy).2.1⟩

theorem ring_in (C : Circle) : C.ring.In C.rules where
  pos := C.pos
  defined t ht := by
    rw [definition_rule ht]
    exact state_rules (rule_lt t)
  keyed i hi j hj h := rule_inj hi hj (congrArg Key.number h)
  base t _ := Terminal.finds _
  tail t _ := .cons (Terminal.finds _) .nil
  start t _ _ x hx := (Terminal.readsOn_rune _ _).ahead hx
  ahead t _ m x hx := ahead_of_add hx

/-! ### Letter after letter -/

/-- Links that were read are the next letters, and the tree has them on its right. -/
theorem letters_of_foldlM_add {is : List Nat} : ∀ {m x : Match} {node : Node},
    m.node = some node → is.foldlM C.add m = some x →
      ∃ ls, m.reader.letters = ls ++ x.reader.letters ∧ ls.map (·.char) = is.map C.link ∧
        x.node = some ((is.zip ls).foldl C.join node) := by
  induction is with
  | nil =>
    intro m x node hnode h
    obtain rfl := Option.some.inj h
    exact ⟨[], rfl, rfl, hnode⟩
  | cons i is ih =>
    intro m x node hnode h
    rw [List.foldlM_cons] at h
    obtain ⟨y, hy, hx⟩ := Option.bind_eq_some_iff.mp h
    obtain ⟨l, hl, hc, rfl⟩ := add_eq_some_iff.mp hy
    have hjoin : (Node.group (C.token i) (m.node.toList ++ [l.leaf (C.linkToken i)])
        (C.interpreter i)) = C.join node (i, l) := by
      rw [hnode]
      rfl
    obtain ⟨ls, hletters, hchars, hnode'⟩ := ih (congrArg some hjoin) hx
    have hcons : m.reader.letters = l :: m.reader.next.letters := by
      rw [Reader.letters_next]
      exact (List.cons_head?_tail hl).symm
    refine ⟨l :: ls, ?_, ?_, hnode'⟩
    · rw [hcons, hletters]
      rfl
    · rw [List.map_cons, List.map_cons, hc, hchars]

/-- Links are read if they are the next letters. -/
theorem exists_foldlM_add {is : List Nat} : ∀ {m : Match} {ls rest : List Letter},
    m.reader.letters = ls ++ rest → ls.map (·.char) = is.map C.link →
      ∃ x, is.foldlM C.add m = some x ∧ x.reader.letters = rest := by
  induction is with
  | nil =>
    intro m ls rest hletters hchars
    rw [List.map_nil, List.map_eq_nil_iff] at hchars
    subst hchars
    exact ⟨m, rfl, hletters⟩
  | cons i is ih =>
    intro m ls rest hletters hchars
    obtain ⟨l, ls, rfl, hc, hchars⟩ := List.map_eq_cons_iff.mp hchars
    have hhead : m.reader.letters.head? = some l := by rw [hletters]; rfl
    obtain ⟨y, hy⟩ : ∃ y, C.add m i = some y := ⟨_, add_eq_some_iff.mpr ⟨l, hhead, hc, rfl⟩⟩
    have hnext : y.reader.letters = ls ++ rest := by
      obtain ⟨-, -, -, rfl⟩ := add_eq_some_iff.mp hy
      rw [Reader.letters_next, hletters]
      rfl
    obtain ⟨x, hx, hrest⟩ := ih hnext hchars
    refine ⟨x, ?_, hrest⟩
    rw [List.foldlM_cons, hy]
    exact hx

theorem fits_of_foldlM_add {is : List Nat} : ∀ {m x : Match}, is.foldlM C.add m = some x →
    m.reader.Fits → x.reader.Fits := by
  induction is with
  | nil =>
    intro m x h hm
    obtain rfl := Option.some.inj h
    exact hm
  | cons i is ih =>
    intro m x h hm
    rw [List.foldlM_cons] at h
    obtain ⟨y, hy, hx⟩ := Option.bind_eq_some_iff.mp h
    obtain ⟨l, -, -, rfl⟩ := add_eq_some_iff.mp hy
    exact ih hx hm.next

/-! ### Words -/

theorem length_rounds {j : Nat} (hj : j < C.size) (n : Nat) :
    (C.rounds j n).length = j + n * C.size := by
  rw [← indices_eq_rounds hj, List.length_map, List.length_range]

/-- A word has one derivation. -/
theorem word_inj {j j' n n' : Nat} (hj : j < C.size) (hj' : j' < C.size)
    (h : C.word j n = C.word j' n') : j = j' ∧ n = n' := by
  obtain ⟨hbase, hlinks⟩ := List.cons.inj h
  have hsame := C.distinct j hj j' hj' hbase
  subst hsame
  have hlength := congrArg List.length hlinks
  rw [List.length_map, List.length_map, length_rounds hj, length_rounds hj] at hlength
  exact ⟨rfl, Nat.eq_of_mul_eq_mul_right C.pos (Nat.add_left_cancel hlength)⟩

/-- The chain of links from base `j` up to the end of round `n`. -/
theorem reach_ring {j : Nat} (hj : j < C.size) (n : Nat) (r : Reader) :
    C.ring.reach r (C.rule j) (j + n * C.size) =
      ((Terminal.rune (C.base j) (C.baseToken j)).find r).bind fun x =>
        (C.rounds j n).foldlM C.add x := by
  have hfirst : C.ring.first (C.rule j) = (Terminal.rune (C.base j) (C.baseToken j)).find := by
    show (Terminal.rune (C.base (C.rule (C.rule j))) (C.baseToken (C.rule (C.rule j)))).find = _
    rw [rule_rule hj]
  rw [Ring.reach_eq_foldlM, hfirst]
  apply Option.bind_congr
  intro x _
  rw [← indices_eq_rounds hj, List.foldlM_map]
  refine congrArg (fun f => List.foldlM f x (List.range (j + n * C.size))) ?_
  funext m i
  rw [link_ring, ← rule_mod (C.rule j + i + 1)]
  rfl

/-- A chain that is at the end of the text has spelled a word, and its node is the tree. -/
theorem spells_of_reach {r : Reader} (hr : r.Fits) {j n : Nat} (hj : j < C.size) {x : Match}
    (h : C.ring.reach r (C.rule j) (j + n * C.size) = some x) (hend : x.reader.atEnd = true) :
    ∃ l ls, r.letters = l :: ls ∧ (l :: ls).map (·.char) = C.word j n ∧
      x.node = some (C.tree j n l ls) := by
  rw [reach_ring hj] at h
  obtain ⟨y, hy, hx⟩ := Option.bind_eq_some_iff.mp h
  obtain ⟨l, hl, hc, rfl⟩ := Terminal.find_rune_iff.mp hy
  have hnone := (fits_of_foldlM_add hx hr.next).atEnd_iff.mp hend
  obtain ⟨ls, hletters, hchars, hnode⟩ := letters_of_foldlM_add rfl hx
  rw [hnone, List.append_nil] at hletters
  refine ⟨l, ls, ?_, ?_, hnode⟩
  · rw [← List.cons_head?_tail hl, ← Reader.letters_next, hletters]
  · rw [List.map_cons, hc, hchars]
    rfl

/-- Whatever spells a word is reached up to its end. -/
theorem exists_reach_of_spells {r : Reader} (hr : r.Fits) {j n : Nat} (hj : j < C.size)
    (h : r.letters.map (·.char) = C.word j n) :
    ∃ x, C.ring.reach r (C.rule j) (j + n * C.size) = some x ∧ x.reader.atEnd = true := by
  obtain ⟨l, ls, hletters, hc, hchars⟩ := List.map_eq_cons_iff.mp h
  have hhead : r.letters.head? = some l := by rw [hletters]; rfl
  have hbase : (Terminal.rune (C.base j) (C.baseToken j)).find r =
      some ⟨some (l.leaf (C.baseToken j)), r.next⟩ :=
    Terminal.find_rune_iff.mpr ⟨l, hhead, hc, rfl⟩
  have hnext : r.next.letters = ls ++ [] := by
    rw [Reader.letters_next, hletters, List.append_nil]
    rfl
  obtain ⟨x, hx, hrest⟩ :=
    exists_foldlM_add (m := ⟨some (l.leaf (C.baseToken j)), r.next⟩) hnext hchars
  refine ⟨x, ?_, (fits_of_foldlM_add hx hr.next).atEnd_iff.mpr hrest⟩
  rw [reach_ring hj, hbase]
  exact hx

/-! ### The language of a circle -/

/-- Only one base can be the next letter. -/
theorem exists_only_base (C : Circle) (r : Reader) :
    ∃ t < C.size, ∀ i < C.size, i ≠ t → C.ring.first i r = none := by
  by_cases hsome : ∃ t < C.size, C.ring.first t r ≠ none
  · obtain ⟨t, ht, hfirst⟩ := hsome
    obtain ⟨x, hx⟩ := Option.ne_none_iff_exists'.mp hfirst
    obtain ⟨l, hl, hc, -⟩ := Terminal.find_rune_iff.mp hx
    refine ⟨t, ht, fun i hi hne => ?_⟩
    by_contra hother
    obtain ⟨y, hy⟩ := Option.ne_none_iff_exists'.mp hother
    obtain ⟨l', hl', hc', -⟩ := Terminal.find_rune_iff.mp hy
    obtain rfl := Option.some.inj (hl.symm.trans hl')
    exact hne (rule_inj hi ht (C.distinct _ (rule_lt i) _ (rule_lt t) (hc'.symm.trans hc)))
  · refine ⟨0, C.pos, fun i hi _ => ?_⟩
    by_contra hfirst
    exact hsome ⟨i, hi, hfirst⟩

theorem size_le_weight (C : Circle) : C.size ≤ C.grammar.weight := by
  have hdefinitions : C.rules.definitions = (List.range C.size).map C.definition := by
    simp [rules, Rules.definitions, List.filterMap_map]
  have hlength := length_le_weightAll (C.grammar.root :: C.rules.definitions)
  rw [hdefinitions, List.length_cons, List.length_map, List.length_range] at hlength
  unfold Grammar.weight
  show C.size ≤ weightAll (C.grammar.root :: C.rules.definitions)
  rw [hdefinitions]
  omega

/-- The matches of the first rule that reach the end of the text. -/
theorem parse_reached (C : Circle) (r : Reader) (s : Session) :
    ∃ out s', C.grammar.parse r s = some (Grammar.select C.grammar.name r out, s') ∧
      (∀ x ∈ out.results.items, r.Ahead x.reader) ∧
      ∃ j < C.size, (∀ i < C.size, i ≠ C.rule j → C.ring.first i r = none) ∧
        ∀ x, x.reader.atEnd = true → (x ∈ out.results.items ↔
          ∃ n, C.ring.reach r (C.rule j) (j + n * C.size) = some x) := by
  have hR := C.ring_in
  obtain ⟨t, ht, honly⟩ := C.exists_only_base r
  have hrule := rule_rule ht
  have hj := rule_lt (C := C) t
  have hwidth : ∀ i < C.ring.size, (C.ring.tail i).length ≤ 1 := fun _ _ => Nat.le_refl 1
  have hforgotten := (s.note (.starting C.grammar.name r.cursor)).known_forget
  obtain ⟨out, s', hx, hmem⟩ := Ring.run_ring (r := r) hR ht honly hwidth
    (fun id => hforgotten id r.cursor.offset)
  have hfuel : 3 * (C.size * (r.remaining + 2)) + 1 + 4 ≤ C.grammar.fuel r := by
    have hmul := C.grammar.mul_le_fuel r
    have hle := r.remaining_le_limit
    have hproduct : (C.size + 8) * (r.remaining + 2) ≤
        (C.grammar.weight + 8) * (r.source.limit + 8) :=
      Nat.mul_le_mul (Nat.add_le_add_right C.size_le_weight 8) (by omega)
    rw [Nat.add_mul] at hproduct
    omega
  have hparse : C.grammar.parse r s =
      some (Grammar.select C.grammar.name r out, Grammar.noteRefusals out s') := by
    have hzero : C.ring.handle 0 = C.handle 0 := by
      show C.handle (C.rule 0) = C.handle 0
      rw [rule_of_le (Nat.zero_le _), Nat.sub_zero, Nat.mod_self]
    have hrun := hx _ hfuel
    rw [hzero] at hrun
    exact congrArg (Option.map _) hrun
  refine ⟨out, _, hparse, fun x hx => ?_, C.rule t, hj, by rwa [hrule], fun x hend => ?_⟩
  · obtain ⟨m, -, hm⟩ := Ring.exists_reach_of_reached C.pos honly ((hmem x).mp hx)
    exact (Ring.reach_ahead hR ht hm).1
  · rw [hmem, hrule]
    constructor
    · intro hreached
      obtain ⟨m, hmod, hm⟩ := Ring.exists_reach_of_reached C.pos honly hreached
      rw [← hrule] at hmod
      obtain ⟨n, rfl⟩ := (rule_add_mod_eq_zero_iff hj).mp hmod
      exact ⟨n, hm⟩
    · rintro ⟨n, hn⟩
      refine Ring.reached_of_atEnd hR ht ?_ hn hend
      have hmod := (rule_add_mod_eq_zero_iff (m := C.rule t + n * C.size) hj).mpr ⟨n, rfl⟩
      rwa [hrule] at hmod

/-- **A circle decides its language.** A text is parsed if and only if its letters spell a word of the
circle, and the node is the tree of that word. -/
theorem parse_decides (C : Circle) (text : String) (skipsBlanks : Bool) (s : Session) :
    ∃ result s', C.grammar.parse (Reader.ofText text skipsBlanks) s = some (result, s') ∧
      ((∃ m, result = .ok m) ↔ ∃ j < C.size, ∃ n,
        (text.toList.filter fun c => !(skipsBlanks && Text.isBlank c)) = C.word j n) ∧
      ∀ m, result = .ok m → ∀ j < C.size, ∀ n l ls, letters text skipsBlanks = l :: ls →
        (l :: ls).map (·.char) = C.word j n → m.node = some (C.tree j n l ls) := by
  have hfits := Reader.fits_ofText text skipsBlanks
  have hletters := Reader.letters_ofText text skipsBlanks
  set r := Reader.ofText text skipsBlanks
  obtain ⟨out, s', hparse, hahead, j, hj, honly, hmem⟩ := C.parse_reached r s
  rw [← map_char_letters, ← hletters]
  refine ⟨_, s', hparse, ⟨?_, ?_⟩, ?_⟩
  · rintro ⟨m, hm⟩
    obtain ⟨hm, hend⟩ := Grammar.mem_of_select hm
    obtain ⟨n, hn⟩ := (hmem m hend).mp hm
    obtain ⟨l, ls, hr, hword, -⟩ := spells_of_reach hfits hj hn hend
    exact ⟨j, hj, n, by rw [hr, hword]⟩
  · rintro ⟨i, hi, n, hword⟩
    obtain ⟨x, hx, hend⟩ := exists_reach_of_spells hfits hi hword
    have hsame : C.rule i = C.rule j := by
      by_contra hne
      have hnone := honly _ (rule_lt i) hne
      rw [Ring.reach_eq_none hnone] at hx
      cases hx
    rw [rule_inj hi hj hsame] at hx
    exact ⟨x, Grammar.select_eq_ok ((hmem x hend).mpr ⟨n, hx⟩) hend hahead⟩
  · intro m hm i hi n l ls hr hword
    obtain ⟨hm, hend⟩ := Grammar.mem_of_select hm
    obtain ⟨n', hn⟩ := (hmem m hend).mp hm
    obtain ⟨l', ls', hr', hword', hnode⟩ := spells_of_reach hfits hj hn hend
    obtain ⟨rfl, rfl⟩ := List.cons.inj (hr.symm.trans hr')
    obtain ⟨rfl, rfl⟩ := word_inj hi hj (hword.symm.trans hword')
    exact hnode

/-- Two rules: `A` is `B a` or `x`, `B` is `A b` or `y`. -/
def pair : Circle where
  size := 2
  pos := by decide
  name i := if i = 0 then "A" else "B"
  label _ := none
  token i := if i = 0 then "BA" else "AB"
  interpreter _ := none
  base i := if i = 0 then 'x' else 'y'
  baseToken _ := "BASE"
  link i := if i = 0 then 'a' else 'b'
  linkToken _ := "LINK"
  distinct := by decide

/-- `yaba` is parsed, with blanks in between, and its tree nests to the left. -/
theorem pair_decides : ∃ m s',
    pair.grammar.parse (Reader.ofText "ya b a" true) .fresh = some (.ok m, s') ∧
      m.node = some (.group "BA" [.group "AB" [.group "BA" [
        .leaf "BASE" (.char 'y') ⟨0, 1, 1⟩ ⟨1, 1, 2⟩,
        .leaf "LINK" (.char 'a') ⟨1, 1, 2⟩ ⟨2, 1, 3⟩] none,
        .leaf "LINK" (.char 'b') ⟨3, 1, 4⟩ ⟨4, 1, 5⟩] none,
        .leaf "LINK" (.char 'a') ⟨5, 1, 6⟩ ⟨6, 1, 7⟩] none) := by
  obtain ⟨result, s', hparse, hiff, hnode⟩ := parse_decides pair "ya b a" true .fresh
  obtain ⟨m, rfl⟩ := hiff.mpr ⟨1, by decide, 1, rfl⟩
  exact ⟨m, s', hparse, hnode m rfl 1 (by decide) 1 _ _ rfl rfl⟩

end Circle

end Curtail
