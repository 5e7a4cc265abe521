/-
# Rules that recurse on the left in a circle

In a ring every rule is a choice between a sequence that starts with the rule
before it and a base, and all else are leaves that find one match. Called at a
reader, the rules call each other there, deeper and deeper, until the sequence
that was entered first refuses. Then the calls return one by one, and each
adds one link to the matches of the call it made.

Levels count the calls from the deepest, which is level 0, so that rule `t`
modulo the size of the ring is called at level `t`. At most one rule has a base
that matches, at level `t₀`, and from there on one link is reached with every
level: `reach m` at level `t₀ + m`. A sequence remembers all that its rule has
reached, and a base counts only where nothing is remembered.

Key definitions: `Ring`, `Ring.reach`, `Ring.Grown`, `Ring.Entered`.
Key theorems: `Ring.run_level`, `Ring.run_ring`.
-/
import Curtail.Proofs.Following
import Curtail.Proofs.Fuel
import Curtail.Proofs.Selection
import Mathlib.Data.Int.CardIntervalMod
import Mathlib.Data.Nat.Count

namespace Curtail

/-- Rules in a circle, with what their leaves find. Only indices below `size` count. -/
structure Ring where
  size : Nat
  handle : Nat → Handle
  name : Nat → String
  key : Nat → Key
  label : Nat → Option String
  build : Nat → Builder
  tail : Nat → List Parser
  base : Nat → Parser
  /-- What the leaves after the recursion find. -/
  finds : Nat → List (Reader → Option Match)
  /-- What the base finds. -/
  first : Nat → Reader → Option Match

/-- A match that the key recalls at an offset. -/
def Session.Recalls (s : Session) (key : Key) (offset : Nat) (m : Match) : Prop :=
  ∃ id, s.memo.idOf? key = some id ∧ m ∈ (s.memo.known id offset).items

theorem Session.recalls_iff {s : Session} {key : Key} {id : Nat} (h : s.memo.idOf? key = some id)
    {offset : Nat} {m : Match} :
    s.Recalls key offset m ↔ m ∈ (s.memo.known id offset).items := by
  constructor
  · rintro ⟨id', hid', hm⟩
    rwa [Option.some.inj (h.symm.trans hid')]
  · exact fun hm => ⟨id, h, hm⟩

namespace Ring

/-- The index of the rule that the sequence of rule `i` starts with. -/
def previous (R : Ring) (i : Nat) : Nat := (i + R.size - 1) % R.size

/-- The definition of rule `i`. -/
def definition (R : Ring) (i : Nat) : Parser :=
  .choice (R.name i) [
    .sequence (R.key i) (R.label i) (R.build i)
      (Draft.between ((R.tail i).length + 1) ((R.tail i).length + 1)) some
      (.rule (R.handle (R.previous i)) :: R.tail i),
    R.base i]

/-- One more link after a match, by the sequence of rule `i`. -/
def link (R : Ring) (i : Nat) (m : Match) : Option Match := extend (R.build i) (R.finds i) m

/-- The rules are defined as the ring says, their sequences are told apart, and every link reads
something and goes ahead. -/
structure In (R : Ring) (rules : Rules) : Prop where
  pos : 0 < R.size
  defined : ∀ i < R.size, rules.state (R.handle i).id = .defined (R.definition i)
  keyed : ∀ i < R.size, ∀ j < R.size, R.key i = R.key j → i = j
  base : ∀ i < R.size, (R.base i).Finds (R.first i)
  tail : ∀ i < R.size, List.Forall₂ Parser.Finds (R.tail i) (R.finds i)
  start : ∀ i < R.size, ∀ r x, R.first i r = some x → r.Ahead x.reader
  ahead : ∀ i < R.size, ∀ m x, R.link i m = some x →
    m.reader.Ahead x.reader ∧ m.stopOffset < x.stopOffset

section Levels

variable (R : Ring) (r : Reader) (t₀ : Nat)

/-- The base of rule `t₀` with `m` links after it. -/
def reach : Nat → Option Match
  | 0 => R.first t₀ r
  | m + 1 => (reach m).bind (R.link ((t₀ + m + 1) % R.size))

/-- What the sequence of rule `i` has found up to level `t`. -/
def Grown (t i : Nat) (x : Match) : Prop :=
  ∃ m, 1 ≤ m ∧ t₀ + m ≤ t ∧ (t₀ + m) % R.size = i ∧ R.reach r t₀ m = some x

/-- What the rule called at level `t` matches. -/
def Matched (t : Nat) (x : Match) : Prop :=
  R.Grown r t₀ t (t % R.size) x ∨
    (∀ y, ¬ R.Grown r t₀ t (t % R.size) y) ∧ R.first (t % R.size) r = some x

/-- How often the sequence of rule `i` is entered from level `t` down. -/
def left (t i : Nat) : Nat := Nat.count (fun x => (x + 1) % R.size = i) t

/-- The rule at level `t` is about to be called: each sequence may be entered as often as the levels
down to the deepest ask for, and nothing is remembered yet. -/
structure Entered (t : Nat) (d : Tally) (s : Session) : Prop where
  depth : ∀ i < R.size, s.memo.depth d (R.key i) + R.left t i = r.remaining + 2
  fresh : ∀ id, s.memo.keys.length ≤ id → d.get id = 0
  nothing : ∀ id, s.memo.known id r.cursor.offset = ∅

end Levels

variable {R : Ring} {rules : Rules} {r : Reader} {t₀ : Nat}

/-! ### Links -/

theorem previous_succ (h : 0 < R.size) (t : Nat) : R.previous ((t + 1) % R.size) = t % R.size := by
  unfold previous
  rw [Nat.add_sub_assoc h, Nat.mod_add_mod, Nat.add_assoc, Nat.add_sub_cancel' h, Nat.add_mod_right]

theorem succ_mod_eq {k a b : Nat} (h : a % k = b % k) : (a + 1) % k = (b + 1) % k :=
  Nat.ModEq.add_right 1 h

theorem mod_eq_of_succ {k a b : Nat} (h : (a + 1) % k = (b + 1) % k) : a % k = b % k :=
  Nat.ModEq.add_right_cancel' 1 h

theorem reach_succ {m : Nat} {x : Match} : R.reach r t₀ (m + 1) = some x ↔
    ∃ y, R.reach r t₀ m = some y ∧ R.link ((t₀ + m + 1) % R.size) y = some x :=
  Option.bind_eq_some_iff

/-- Later links end later. -/
theorem reach_lt (hR : R.In rules) {m n : Nat} (hmn : m < n) {x y : Match}
    (hx : R.reach r t₀ m = some x) (hy : R.reach r t₀ n = some y) : x.stopOffset < y.stopOffset := by
  induction n generalizing y with
  | zero => omega
  | succ n ih =>
    obtain ⟨z, hz, hlink⟩ := reach_succ.mp hy
    have hlt := (hR.ahead _ (Nat.mod_lt _ hR.pos) z y hlink).2
    rcases Nat.lt_or_ge m n with hmn' | hge
    · exact Nat.lt_trans (ih hmn' hz) hlt
    · obtain rfl : m = n := by omega
      rw [hx] at hz
      rwa [Option.some.inj hz]

/-- Where a chain of links ends settles the match. -/
theorem reach_inj (hR : R.In rules) {m n : Nat} {x y : Match} (hx : R.reach r t₀ m = some x)
    (hy : R.reach r t₀ n = some y) (h : x.stopOffset = y.stopOffset) : x = y := by
  rcases Nat.lt_trichotomy m n with hlt | rfl | hgt
  · exact absurd h (Nat.ne_of_lt (reach_lt hR hlt hx hy))
  · exact Option.some.inj (hx.symm.trans hy)
  · exact absurd h.symm (Nat.ne_of_lt (reach_lt hR hgt hy hx))

/-- Chains go ahead, and every link reads at least one byte. -/
theorem reach_ahead (hR : R.In rules) (ht₀ : t₀ < R.size) {m : Nat} {x : Match}
    (hx : R.reach r t₀ m = some x) : r.Ahead x.reader ∧ r.cursor.offset + m ≤ x.stopOffset := by
  induction m generalizing x with
  | zero =>
    have h := hR.start t₀ ht₀ r x hx
    exact ⟨h, h.le⟩
  | succ m ih =>
    obtain ⟨y, hy, hlink⟩ := reach_succ.mp hx
    obtain ⟨hahead, hlt⟩ := hR.ahead _ (Nat.mod_lt _ hR.pos) y x hlink
    obtain ⟨h, hle⟩ := ih hy
    exact ⟨h.trans hahead, by omega⟩

/-- No chain has more links than there are bytes left. -/
theorem reach_le_remaining (hR : R.In rules) (ht₀ : t₀ < R.size) {m : Nat} {x : Match}
    (hx : R.reach r t₀ m = some x) : m ≤ r.remaining := by
  obtain ⟨hahead, hle⟩ := reach_ahead hR ht₀ hx
  rcases Nat.eq_zero_or_pos m with rfl | hpos
  · exact Nat.zero_le _
  · have hlt : r.cursor.offset < x.reader.cursor.offset := by
      show r.cursor.offset < x.stopOffset
      omega
    have hinside : x.stopOffset ≤ r.source.limit := hahead.inside hlt
    unfold Reader.remaining
    omega

/-- A chain folds its links, each after what the ones before it have reached. -/
theorem reach_eq_foldlM (m : Nat) : R.reach r t₀ m = (R.first t₀ r).bind fun x =>
    (List.range m).foldlM (fun x i => R.link ((t₀ + i + 1) % R.size) x) x := by
  induction m with
  | zero => exact (Option.bind_fun_some (R.first t₀ r)).symm
  | succ m ih =>
    rw [reach, ih, Option.bind_assoc]
    apply Option.bind_congr
    intro x _
    rw [List.range_succ, List.foldlM_append]
    simp only [List.foldlM_cons, List.foldlM_nil, bind_pure]
    rfl

/-- Without a base there is no chain. -/
theorem reach_eq_none (h : R.first t₀ r = none) (m : Nat) : R.reach r t₀ m = none := by
  rw [reach_eq_foldlM, h]
  rfl

/-! ### What one more level adds -/

/-- Other rules gain nothing. -/
theorem grown_succ_ne {t i : Nat} (hi : i ≠ (t + 1) % R.size) (x : Match) :
    R.Grown r t₀ (t + 1) i x ↔ R.Grown r t₀ t i x := by
  constructor
  · rintro ⟨m, hm, hle, hmod, hx⟩
    refine ⟨m, hm, Nat.le_of_lt_succ (Nat.lt_of_le_of_ne hle fun heq => hi ?_), hmod, hx⟩
    rw [← hmod, heq]
  · rintro ⟨m, hm, hle, hmod, hx⟩
    exact ⟨m, hm, Nat.le_succ_of_le hle, hmod, hx⟩

/-- The rule at the next level finds what it has found, and one link more than the rule before it
matched. -/
theorem grown_succ (ht₀ : t₀ < R.size) (honly : ∀ i < R.size, i ≠ t₀ → R.first i r = none) {t : Nat}
    (x : Match) : R.Grown r t₀ (t + 1) ((t + 1) % R.size) x ↔
      (∃ y, R.Matched r t₀ t y ∧ R.link ((t + 1) % R.size) y = some x) ∨
        R.Grown r t₀ t ((t + 1) % R.size) x := by
  have hpos : 0 < R.size := Nat.zero_lt_of_lt ht₀
  constructor
  · rintro ⟨m, hm, hle, hmod, hx⟩
    obtain ⟨m, rfl⟩ := Nat.exists_eq_add_one.mpr hm
    obtain ⟨y, hy, hlink⟩ := reach_succ.mp hx
    rw [← Nat.add_assoc] at hmod hle
    rw [hmod] at hlink
    have hbefore := mod_eq_of_succ hmod
    cases m with
    | zero =>
      -- the first link: the base matched one level before, unless more was known there
      by_cases hnone : ∀ z, ¬ R.Grown r t₀ t (t % R.size) z
      · refine .inl ⟨y, .inr ⟨hnone, ?_⟩, hlink⟩
        rw [← hbefore, Nat.add_zero, Nat.mod_eq_of_lt ht₀]
        exact hy
      · obtain ⟨z, n, hn, hle', -⟩ := not_forall_not.mp hnone
        exact .inr ⟨1, Nat.le_refl 1, by omega, hmod, hx⟩
    | succ m =>
      exact .inl ⟨y, .inl ⟨m + 1, Nat.le_add_left 1 m, Nat.le_of_succ_le_succ hle, hbefore, hy⟩, hlink⟩
  · rintro (⟨y, hmatched, hlink⟩ | ⟨m, hm, hle, hmod, hx⟩)
    · rcases hmatched with ⟨m, -, hle, hmod, hy⟩ | ⟨-, hfirst⟩
      · have hnext := succ_mod_eq hmod
        refine ⟨m + 1, Nat.le_add_left 1 m, Nat.succ_le_succ hle, hnext, ?_⟩
        exact reach_succ.mpr ⟨y, hy, by rwa [hnext]⟩
      · have hbase : t % R.size = t₀ := by
          by_contra hne
          rw [honly _ (Nat.mod_lt _ hpos) hne] at hfirst
          cases hfirst
        have hnext : (t₀ + 1) % R.size = (t + 1) % R.size := by
          refine succ_mod_eq ?_
          rw [Nat.mod_eq_of_lt ht₀, hbase]
        rw [hbase] at hfirst
        refine ⟨1, Nat.le_refl 1, ?_, hnext, reach_succ.mpr ⟨y, hfirst, ?_⟩⟩
        · have := Nat.mod_le t R.size
          omega
        · rwa [Nat.add_zero, hnext]
    · exact ⟨m, hm, Nat.le_succ_of_le hle, hmod, hx⟩

/-! ### Entering a level -/

theorem left_succ (t i : Nat) :
    R.left (t + 1) i = R.left t i + if (t + 1) % R.size = i then 1 else 0 := Nat.count_succ _ t

namespace Entered

variable {t : Nat} {d : Tally} {s s₁ : Session} {key : Key} {id : Nat}

theorem alike {s' : Session} (h : R.Entered r t d s) (halike : s.Alike s') : R.Entered r t d s' where
  depth i hi := by
    rw [← h.depth i hi]
    unfold Memo.depth
    rw [halike.idOf?]
  fresh id hid := h.fresh id (by rwa [halike.keys] at hid)
  nothing id := (halike.known id _).trans (h.nothing id)

/-- Registering a key makes no difference. -/
theorem register (h : R.Entered r t d s) (hregister : s.countCall.register key = (id, s₁)) :
    R.Entered r t d s₁ := by
  obtain rfl : (s.countCall.register key).2 = s₁ := by rw [hregister]
  refine ⟨fun i hi => ?_, fun id hid => ?_, fun id => ?_⟩
  · rw [← h.depth i hi]
    exact congrArg (· + R.left t i) (@Memo.depth_register s.memo.countCall d h.fresh key (R.key i))
  · exact h.fresh id (Nat.le_trans (s.grows_register key).length_le hid)
  · rw [Session.known_register]
    exact h.nothing id

theorem idOf? (hregister : s.countCall.register key = (id, s₁)) : s₁.memo.idOf? key = some id := by
  have := s.idOf?_register key
  rwa [hregister] at this

theorem grows (hregister : s.countCall.register key = (id, s₁)) : s.Grows s₁ := by
  have := s.grows_register key
  rwa [hregister] at this

/-- At the deepest level the sequence refuses. -/
theorem refuses (h : R.Entered r 0 d s) (hpos : 0 < R.size)
    (hregister : s.countCall.register (R.key 0) = (id, s₁)) : Run.refuses d r id = true := by
  have hdepth := (h.register hregister).depth 0 hpos
  rw [Memo.depth_of_idOf? (idOf? hregister)] at hdepth
  have : R.left 0 0 = 0 := rfl
  simp only [Run.refuses, decide_eq_true_eq]
  omega

/-- At any other level the sequence is entered, and the next level is about to be called. -/
theorem enter (h : R.Entered r (t + 1) d s) (hR : R.In rules)
    (hregister : s.countCall.register (R.key ((t + 1) % R.size)) = (id, s₁)) :
    Run.refuses d r id = false ∧ R.Entered r t (d.inc id) s₁ := by
  have h₁ := h.register hregister
  have hid := idOf? hregister
  have hmod := Nat.mod_lt (t + 1) hR.pos
  refine ⟨?_, fun i hi => ?_, fun id' hid' => ?_, h₁.nothing⟩
  · have hdepth := h₁.depth _ hmod
    rw [left_succ, if_pos rfl, Memo.depth_of_idOf? hid] at hdepth
    simp only [Run.refuses, decide_eq_false_iff_not]
    omega
  · have hdepth := h₁.depth i hi
    rw [left_succ] at hdepth
    by_cases hsame : (t + 1) % R.size = i
    · subst hsame
      rw [if_pos rfl] at hdepth
      rw [Memo.depth_inc_self hid]
      omega
    · rw [if_neg hsame] at hdepth
      rw [Memo.depth_inc_ne hid fun hkey => hsame (hR.keyed _ hmod i hi hkey)]
      omega
  · have hne : id ≠ id' := Nat.ne_of_lt (Nat.lt_of_lt_of_le (Memo.idOf?_lt hid) hid')
    rw [Tally.get_inc, if_neg hne]
    exact h₁.fresh id' hid'

end Entered

/-! ### The induction -/

/-- With enough fuel the rule at level `t` comes to an end and matches as said, and afterwards the
sequences recall what they have found. -/
def Runs (R : Ring) (rules : Rules) (r : Reader) (t₀ width t : Nat) : Prop :=
  ∀ n d s, 3 * t + width + 3 ≤ n → R.Entered r t d s →
    ∃ out s', (R.definition (t % R.size)).run rules n d r s = some (out, s') ∧ s.Grows s' ∧
      (∀ x, x ∈ out.results.items ↔ R.Matched r t₀ t x) ∧
      ∀ i < R.size, ∀ x, s'.Recalls (R.key i) r.cursor.offset x ↔ R.Grown r t₀ t i x

/-- At the deepest level the sequence refuses, and the base is all there is. -/
theorem runs_zero (hR : R.In rules) (width : Nat) : R.Runs rules r t₀ width 0 := by
  intro n d s hn h
  obtain ⟨n, rfl⟩ := Nat.exists_eq_add_of_le' (Nat.le_of_add_left_le hn)
  have hnone : ∀ i x, ¬ R.Grown r t₀ 0 i x := by
    rintro i x ⟨m, hm, hle, -⟩
    omega
  rw [Nat.zero_mod]
  have hs := h.alike (.countCall s)
  obtain ⟨id, s₁, hregister⟩ : ∃ id s₁, s.countCall.countCall.register (R.key 0) = (id, s₁) :=
    ⟨_, _, rfl⟩
  have h₁ := hs.register hregister
  obtain ⟨s₂, hsequence, halike⟩ := Parser.run_sequence_refused (R.label 0) (R.build 0) _ some _
    hregister (hs.refuses hR.pos hregister)
  obtain ⟨out, s', hx, hitems, halike'⟩ := Parser.run_choice_pair (R.name 0) hsequence
    (hR.base 0 hR.pos)
  refine ⟨out, s', hx, ?_, fun x => ?_, fun i hi x => ?_⟩
  · exact (Entered.grows hregister).trans (halike.trans halike').grows
  · rw [hitems, if_pos (show (Outcome.refused id).results.items = [] from rfl), Option.mem_toList]
    unfold Matched
    rw [Nat.zero_mod]
    exact ⟨fun hx => .inr ⟨hnone 0, hx⟩, fun hx => (hx.resolve_left (hnone 0 x)).2⟩
  · refine ⟨fun ⟨id', _, hx⟩ => ?_, fun hx => absurd hx (hnone i x)⟩
    rw [(halike.trans halike').known, h₁.nothing] at hx
    cases hx

/-- One level up, the sequence extends what the rule below matches, and adds what it remembers. -/
theorem sequence_succ (hR : R.In rules) (ht₀ : t₀ < R.size)
    (honly : ∀ i < R.size, i ≠ t₀ → R.first i r = none) {width t n : Nat}
    (hwidth : ∀ i < R.size, (R.tail i).length ≤ width) (ih : R.Runs rules r t₀ width t) {d : Tally}
    {s : Session} (h : R.Entered r (t + 1) d s) (hn : 3 * t + width + 3 ≤ n) :
    let i := (t + 1) % R.size
    ∃ id s₂ b s₃, (Parser.sequence (R.key i) (R.label i) (R.build i)
        (Draft.between ((R.tail i).length + 1) ((R.tail i).length + 1)) some
        (.rule (R.handle (R.previous i)) :: R.tail i)).run rules (n + 2) d r s = some (b, s₃) ∧
      s.Grows s₂ ∧ s₂.memo.idOf? (R.key i) = some id ∧
      (∀ x, x ∈ b.results.items ↔ R.Grown r t₀ (t + 1) i x) ∧
      (∀ j < R.size, ∀ x, s₂.Recalls (R.key j) r.cursor.offset x ↔ R.Grown r t₀ t j x) ∧
      s₃.memo.keys = s₂.memo.keys ∧ ∀ id' offset, s₃.memo.known id' offset =
        if id = id' ∧ r.cursor.offset = offset then b.results else s₂.memo.known id' offset := by
  intro i
  have hi : i < R.size := Nat.mod_lt (t + 1) hR.pos
  obtain ⟨id, s₁, hregister⟩ : ∃ id s₁, s.countCall.register (R.key i) = (id, s₁) := ⟨_, _, rfl⟩
  obtain ⟨hrefuses, henter⟩ := h.enter hR hregister
  obtain ⟨a, s₂, ha, hgrows, hmatched, hrecalls⟩ := ih n _ _ hn henter
  have hrule : (Parser.rule (R.handle (R.previous i))).run rules (n + 1) (d.inc id) r s₁ =
      some (a, s₂) := by
    rw [previous_succ hR.pos, Parser.run_rule, hR.defined _ (Nat.mod_lt t hR.pos)]
    exact ha
  have hid := Memo.idOf?_mono hgrows (Entered.idOf? hregister)
  have hknown : ∀ x, x ∈ (s₂.memo.known id r.cursor.offset).items ↔ R.Grown r t₀ t i x := fun x =>
    (Session.recalls_iff hid).symm.trans (hrecalls i hi x)
  have hlen : (R.tail i).length + 1 ≤ n := by
    have := hwidth i hi
    omega
  -- all matches in sight are links of the one chain, so where they end tells them apart
  have hgrow : ∀ y ∈ a.results.items, ∀ x, R.link i y = some x → ∃ m, R.reach r t₀ m = some x := by
    intro y hy x hlink
    obtain ⟨m, -, -, -, hx⟩ := (grown_succ ht₀ honly x).mpr (.inl ⟨y, (hmatched y).mp hy, hlink⟩)
    exact ⟨m, hx⟩
  have hold : ∀ x ∈ (s₂.memo.known id r.cursor.offset).items, ∃ m, R.reach r t₀ m = some x := by
    intro x hx
    obtain ⟨m, -, -, -, hx⟩ := (hknown x).mp hx
    exact ⟨m, hx⟩
  obtain ⟨b, s₃, hsequence, hb, hkeys, hgrown⟩ := Parser.run_sequence_follow (R.label i) rfl
    (hR.tail i hi) hlen hregister hrefuses hrule
    (fun x y ⟨_, hx⟩ ⟨_, hy⟩ hxy => reach_inj hR hx hy hxy) hgrow hold
  refine ⟨id, s₂, b, s₃, hsequence, (Entered.grows hregister).trans hgrows, hid, fun x => ?_,
    hrecalls, hkeys, hgrown⟩
  rw [hb, grown_succ ht₀ honly, hknown]
  simp only [hmatched]
  rfl

/-- So the rule comes to an end one level up, if it does at this one. -/
theorem runs_succ (hR : R.In rules) (ht₀ : t₀ < R.size)
    (honly : ∀ i < R.size, i ≠ t₀ → R.first i r = none) {width : Nat}
    (hwidth : ∀ i < R.size, (R.tail i).length ≤ width) {t : Nat} (ih : R.Runs rules r t₀ width t) :
    R.Runs rules r t₀ width (t + 1) := by
  intro n d s hn h
  obtain ⟨n, rfl⟩ := Nat.exists_eq_add_of_le' (Nat.le_of_add_left_le hn)
  have hi := Nat.mod_lt (t + 1) hR.pos
  obtain ⟨id, s₂, b, s₃, hsequence, hgrows, hid, hfound, hrecalls, hkeys, hgrown⟩ :=
    sequence_succ (n := n) hR ht₀ honly hwidth ih (h.alike (.countCall s)) (by omega)
  obtain ⟨out, s', hx, hitems, halike⟩ := Parser.run_choice_pair (R.name ((t + 1) % R.size))
    hsequence (hR.base _ hi)
  have hkeys' : s'.memo.keys = s₂.memo.keys := halike.keys.trans hkeys
  have hidOf : ∀ key, s'.memo.idOf? key = s₂.memo.idOf? key := by
    intro key
    unfold Memo.idOf?
    rw [hkeys']
  refine ⟨out, s', hx, ?_, fun x => ?_, fun j hj x => ?_⟩
  · show s.memo.keys <+: s'.memo.keys
    rw [hkeys']
    exact hgrows
  · rw [hitems]
    unfold Matched
    simp only [← hfound]
    split
    · rename_i hempty
      simp [hempty]
    · rename_i hne
      obtain ⟨y, hy⟩ := List.exists_mem_of_ne_nil _ hne
      exact ⟨.inl, fun hx => hx.resolve_right fun hnone => hnone.1 y hy⟩
  · by_cases hsame : j = (t + 1) % R.size
    · subst hsame
      rw [Session.recalls_iff (by rw [hidOf, hid]), halike.known, hgrown, if_pos ⟨rfl, rfl⟩, hfound]
    · rw [grown_succ_ne hsame, ← hrecalls j hj]
      unfold Session.Recalls
      simp only [hidOf, halike.known, hgrown]
      refine exists_congr fun id' => and_congr_right fun hid' => ?_
      rw [if_neg]
      rintro ⟨rfl, -⟩
      exact hsame (hR.keyed j hj _ hi (Memo.idOf?_inj hid' hid))

/-- **Every level of the recursion**, from the deepest up. -/
theorem run_level (hR : R.In rules) (ht₀ : t₀ < R.size)
    (honly : ∀ i < R.size, i ≠ t₀ → R.first i r = none) {width : Nat}
    (hwidth : ∀ i < R.size, (R.tail i).length ≤ width) (t : Nat) : R.Runs rules r t₀ width t := by
  induction t with
  | zero => exact runs_zero hR width
  | succ t ih => exact runs_succ hR ht₀ honly hwidth ih

/-! ### From the outermost level -/

/-- In whole rounds every sequence is entered once a round. -/
theorem left_mul {i : Nat} (hi : i < R.size) (rounds : Nat) : R.left (R.size * rounds) i = rounds := by
  have hpos : 0 < R.size := Nat.zero_lt_of_lt hi
  have hshift : (i + (R.size - 1) + 1) % R.size = i := by
    rw [Nat.add_assoc, Nat.sub_add_cancel hpos, Nat.add_mod_right, Nat.mod_eq_of_lt hi]
  have hsame : ∀ x, (x + 1) % R.size = i ↔ x ≡ i + (R.size - 1) [MOD R.size] := by
    intro x
    refine ⟨fun h => mod_eq_of_succ (h.trans hshift.symm), fun h => ?_⟩
    rw [succ_mod_eq h, hshift]
  unfold left
  rw [Nat.count_eq_card_filter_range, Finset.filter_congr fun x _ => hsame x,
    ← Nat.count_eq_card_filter_range, Nat.count_modEq_card _ hpos, Nat.mul_div_cancel_left _ hpos,
    Nat.mul_mod_right, if_neg (Nat.not_lt_zero _), Nat.add_zero]

/-- Rule 0 is called from outside where nothing is remembered. -/
theorem entered_outermost {s : Session}
    (hs : ∀ id, s.memo.known id r.cursor.offset = ∅) :
    R.Entered r (R.size * (r.remaining + 2)) .zero s where
  depth i hi := by
    rw [left_mul hi]
    cases hid : s.memo.idOf? (R.key i) with
    | none => rw [Memo.depth, hid]; exact Nat.zero_add _
    | some id => rw [Memo.depth_of_idOf? hid, Tally.get_zero, Nat.zero_add]
  fresh id _ := Tally.get_zero id
  nothing := hs

/-- The matches of rule 0: all chains of links that end with its own, or its base. -/
def Reached (R : Ring) (r : Reader) (t₀ : Nat) (x : Match) : Prop :=
  (∃ m, 1 ≤ m ∧ (t₀ + m) % R.size = 0 ∧ R.reach r t₀ m = some x) ∨
    (∀ m, 1 ≤ m → (t₀ + m) % R.size = 0 → R.reach r t₀ m = none) ∧ R.first 0 r = some x

/-- What is reached is a chain that ends with a link of rule 0, if it has any link. -/
theorem exists_reach_of_reached (hpos : 0 < R.size)
    (honly : ∀ i < R.size, i ≠ t₀ → R.first i r = none) {x : Match} (h : R.Reached r t₀ x) :
    ∃ m, (t₀ + m) % R.size = 0 ∧ R.reach r t₀ m = some x := by
  rcases h with ⟨m, -, hmod, hx⟩ | ⟨-, hfirst⟩
  · exact ⟨m, hmod, hx⟩
  · by_cases hzero : 0 = t₀
    · subst hzero
      exact ⟨0, Nat.zero_mod _, hfirst⟩
    · rw [honly 0 hpos hzero] at hfirst
      cases hfirst

/-- At the end of the text all such chains are reached, also the one without links. -/
theorem reached_of_atEnd (hR : R.In rules) (ht₀ : t₀ < R.size) {m : Nat} {x : Match}
    (hmod : (t₀ + m) % R.size = 0) (hx : R.reach r t₀ m = some x) (hend : x.reader.atEnd = true) :
    R.Reached r t₀ x := by
  rcases Nat.eq_zero_or_pos m with rfl | hpos
  · obtain rfl : t₀ = 0 := by rwa [Nat.add_zero, Nat.mod_eq_of_lt ht₀] at hmod
    refine .inr ⟨fun n hn _ => ?_, hx⟩
    cases hy : R.reach r 0 n with
    | none => rfl
    | some y =>
      have hlt : x.reader.cursor.offset < y.reader.cursor.offset := reach_lt hR hn hx hy
      have hxahead := (reach_ahead hR ht₀ hx).1
      have hyahead := (reach_ahead hR ht₀ hy).1
      rw [Reader.atEnd_iff, hxahead.source] at hend
      have hle := hxahead.le
      have hinside := hyahead.inside (Nat.lt_of_le_of_lt hle hlt)
      omega
  · exact .inl ⟨m, hpos, hmod, hx⟩

/-- **A ring finds every chain.** Called where nothing is remembered, rule 0 matches all chains of
links that end with its own. -/
theorem run_ring (hR : R.In rules) (ht₀ : t₀ < R.size)
    (honly : ∀ i < R.size, i ≠ t₀ → R.first i r = none) {width : Nat}
    (hwidth : ∀ i < R.size, (R.tail i).length ≤ width) {s : Session}
    (hs : ∀ id, s.memo.known id r.cursor.offset = ∅) :
    ∃ out s', (∀ n, 3 * (R.size * (r.remaining + 2)) + width + 4 ≤ n →
        (Parser.rule (R.handle 0)).run rules n .zero r s = some (out, s')) ∧
      ∀ x, x ∈ out.results.items ↔ R.Reached r t₀ x := by
  obtain ⟨out, s', hx, -, hmatched, -⟩ := run_level hR ht₀ honly hwidth
    (R.size * (r.remaining + 2)) _ .zero s (Nat.le_refl _) (entered_outermost hs)
  rw [Nat.mul_mod_right] at hx
  refine ⟨out, s', fun n hn => ?_, fun x => ?_⟩
  · have hrule : (Parser.rule (R.handle 0)).run rules
        (3 * (R.size * (r.remaining + 2)) + width + 3 + 1) .zero r s = some (out, s') := by
      rw [Parser.run_rule, hR.defined 0 hR.pos]
      exact hx
    exact Parser.run_mono hn hrule
  · -- no chain is too long for the outermost level
    have hgrown : ∀ y, R.Grown r t₀ (R.size * (r.remaining + 2)) 0 y ↔
        ∃ m, 1 ≤ m ∧ (t₀ + m) % R.size = 0 ∧ R.reach r t₀ m = some y := by
      refine fun y => exists_congr fun m => and_congr_right fun _ =>
        ⟨fun ⟨_, hmod, hy⟩ => ⟨hmod, hy⟩, fun ⟨hmod, hy⟩ => ⟨?_, hmod, hy⟩⟩
      have hle := reach_le_remaining hR ht₀ hy
      have hrounds : r.remaining ≤ R.size * r.remaining := Nat.le_mul_of_pos_left _ hR.pos
      rw [Nat.mul_add]
      omega
    rw [hmatched]
    unfold Matched Reached
    rw [Nat.mul_mod_right]
    simp only [hgrown]
    refine or_congr Iff.rfl (and_congr_left fun _ => ?_)
    constructor
    · intro h m hm hmod
      cases hy : R.reach r t₀ m with
      | none => rfl
      | some y => exact absurd ⟨m, hm, hmod, hy⟩ (h y)
    · rintro h y ⟨m, hm, hmod, hy⟩
      rw [h m hm hmod] at hy
      cases hy

end Ring

end Curtail
