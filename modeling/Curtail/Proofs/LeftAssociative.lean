/-
# Left recursion over an operator

A rule that is a choice between a sequence of itself, an operator and an item,
and an item alone, is a ring with one rule. It matches every leading part of
`item op item op ... item` that ends with an item, and the tree of each nests
to the left. Where it is evaluated by an interpreter of three nodes, the value
is a left fold.

Key definitions: `chainOf`, `Pairs`, `grow`, `FoldsThree`.
Key theorems: `chain_items`, `chain_value`, `chain_complete`.
-/
import Curtail.Proofs.Ring
import Curtail.Proofs.Selection

namespace Curtail

/-- A rule that recurses on the left: itself, an operator and an item, or an item alone. -/
def chainOf (name : String) (key : Key) (label : Option String) (build : Builder) (h : Handle)
    (op item : Parser) : Parser :=
  .choice name [.sequence key label build (Draft.between 3 3) some [.rule h, op, item], item]

/-- Operators with the items that follow them, one pair after the other, and the reader after the
last. -/
inductive Pairs (op item : Reader → Option Match) : Reader → List (Match × Match) → Reader → Prop
  | nil {r : Reader} : Pairs op item r [] r
  | cons {r r' : Reader} {o i : Match} {ps : List (Match × Match)} :
    op r = some o → item o.reader = some i → Pairs op item i.reader ps r' →
      Pairs op item r ((o, i) :: ps) r'

/-- No operator with an item follows. -/
def Stuck (op item : Reader → Option Match) (r : Reader) : Prop :=
  ∀ o, op r = some o → item o.reader = none

/-- A tree with an operator and an item joined to its right. -/
def grow (build : Builder) (t : Match) (p : Match × Match) : Match :=
  ⟨build (t.node.toList ++ p.1.node.toList ++ p.2.node.toList), p.2.reader⟩

variable {op item : Reader → Option Match} {build : Builder} {r r' : Reader}
  {ps : List (Match × Match)}

/-! ### The pairs of a text -/

/-- There are pairs until none follows: each reads something. -/
theorem exists_pairs (hop : ReadsOn op) (hitem : ReadsOn item) : ∀ (n : Nat) (r : Reader),
    r.remaining < n → ∃ ps r', Pairs op item r ps r' ∧ Stuck op item r'
  | n + 1, r, hn => by
    by_cases hstuck : Stuck op item r
    · exact ⟨[], r, .nil, hstuck⟩
    · obtain ⟨o, hstuck⟩ := not_forall.mp hstuck
      obtain ⟨ho, hnext⟩ := Classical.not_imp.mp hstuck
      obtain ⟨i, hi⟩ := Option.ne_none_iff_exists'.mp hnext
      have hlt : r.cursor.offset < i.reader.cursor.offset :=
        Nat.lt_trans (hop r o ho).2.1 (hitem o.reader i hi).2.1
      have hless := ((hop.ahead ho).trans (hitem.ahead hi)).remaining_lt hlt
      obtain ⟨ps, r', hps, hend⟩ := exists_pairs hop hitem n i.reader (by omega)
      exact ⟨(o, i) :: ps, r', .cons ho hi hps, hend⟩

theorem extend_pair (build : Builder) (op item : Reader → Option Match) (t : Match) :
    extend build [op, item] t = (op t.reader).bind fun o =>
      (item o.reader).map fun i => grow build t (o, i) := by
  unfold extend
  simp only [follow]
  cases op t.reader with
  | none => rfl
  | some o =>
    cases hi : item o.reader with
    | none => simp [hi]
    | some i => simp [hi, grow]

/-- One link after the other, as long as pairs follow. -/
theorem iterate_extend (h : Pairs op item r ps r') (hstuck : Stuck op item r') :
    ∀ {t : Match}, t.reader = r → ∀ m,
      (fun x => x.bind (extend build [op, item]))^[m] (some t) = (ps.scanl (grow build) t)[m]? := by
  induction h with
  | nil =>
    intro t ht m
    have hend : extend build [op, item] t = none := by
      rw [extend_pair, ht]
      cases ho : op _ with
      | none => rfl
      | some o => rw [Option.bind_some, hstuck o ho, Option.map_none]
    cases m with
    | zero => rfl
    | succ m =>
      rw [Function.iterate_succ_apply, Option.bind_some, hend, Function.iterate_fixed rfl]
      rfl
  | @cons r r' o i ps ho hi _ ih =>
    intro t ht m
    cases m with
    | zero =>
      rw [List.scanl_cons]
      rfl
    | succ m =>
      rw [Function.iterate_succ_apply, Option.bind_some, extend_pair, ht, ho, Option.bind_some, hi,
        Option.map_some, List.scanl_cons, List.getElem?_cons_succ]
      exact ih hstuck (t := grow build t (o, i)) rfl m

theorem Pairs.ahead (hop : ReadsOn op) (hitem : ReadsOn item) (h : Pairs op item r ps r') :
    ∀ {t : Match}, t.reader = r → ∀ x ∈ ps.scanl (grow build) t, r.Ahead x.reader := by
  induction h with
  | nil =>
    intro t ht x hx
    rw [List.scanl_nil, List.mem_singleton] at hx
    rw [hx, ht]
    exact .refl _
  | @cons r r' o i ps ho hi _ ih =>
    intro t ht x hx
    rw [List.scanl_cons] at hx
    rcases List.mem_cons.mp hx with rfl | hx
    · rw [ht]
      exact .refl _
    · have htail := ih (t := grow build t (o, i)) rfl x hx
      exact ((hop.ahead ho).trans (hitem.ahead hi)).trans htail

theorem Pairs.reader_foldl (h : Pairs op item r ps r') :
    ∀ {t : Match}, t.reader = r → (ps.foldl (grow build) t).reader = r' := by
  induction h with
  | nil => exact fun ht => ht
  | @cons r r' o i ps _ _ _ ih => exact fun {t} _ => ih (t := grow build t (o, i)) rfl

/-- Nothing follows at the end of the text. -/
theorem stuck_of_atEnd (hop : ReadsOn op) (hend : r.atEnd = true) : Stuck op item r := by
  intro o ho
  obtain ⟨-, hlt, hinside⟩ := hop r o ho
  have := Reader.atEnd_iff.mp hend
  omega

/-! ### The rule as a ring -/

section Rule

variable {rules : Rules} {name : String} {key : Key} {label : Option String} {h : Handle}
  {opParser itemParser : Parser}

/-- The ring of the one rule. -/
def chainRing (name : String) (key : Key) (label : Option String) (build : Builder) (h : Handle)
    (opParser itemParser : Parser) (op item : Reader → Option Match) : Ring where
  size := 1
  handle _ := h
  name _ := name
  key _ := key
  label _ := label
  build _ := build
  tail _ := [opParser, itemParser]
  base _ := itemParser
  finds _ := [op, item]
  first _ := item

theorem chainRing_in (hdef : rules.state h.id =
      .defined (chainOf name key label build h opParser itemParser))
    (hop : opParser.Finds op) (hitem : itemParser.Finds item) (hopOn : ReadsOn op)
    (hitemOn : ReadsOn item) :
    (chainRing name key label build h opParser itemParser op item).In rules where
  pos := Nat.one_pos
  defined _ _ := hdef
  keyed i hi j hj _ := (Nat.lt_one_iff.mp hi).trans (Nat.lt_one_iff.mp hj).symm
  base _ _ := hitem
  tail _ _ := .cons hop (.cons hitem .nil)
  start _ _ r x hx := hitemOn.ahead hx
  ahead _ _ m x hx := by
    change extend build [op, item] m = some x at hx
    rw [extend_pair] at hx
    obtain ⟨o, ho, hx⟩ := Option.bind_eq_some_iff.mp hx
    obtain ⟨i, hi, rfl⟩ := Option.map_eq_some_iff.mp hx
    have hahead : m.reader.Ahead i.reader := (hopOn.ahead ho).trans (hitemOn.ahead hi)
    exact ⟨hahead, Nat.lt_trans (hopOn m.reader o ho).2.1 (hitemOn o.reader i hi).2.1⟩

theorem reach_chainRing {first : Match} (hfirst : item r = some first) (m : Nat) :
    (chainRing name key label build h opParser itemParser op item).reach r 0 m =
      (fun x => x.bind (extend build [op, item]))^[m] (some first) := by
  induction m with
  | zero => exact hfirst
  | succ m ih =>
    rw [Function.iterate_succ_apply', ← ih]
    rfl

/-- The matches of the rule: all chains with a link, or the item if there is none. -/
theorem chain_reached (hdef : rules.state h.id =
      .defined (chainOf name key label build h opParser itemParser))
    (hop : opParser.Finds op) (hitem : itemParser.Finds item) (hopOn : ReadsOn op)
    (hitemOn : ReadsOn item) (r : Reader) {s : Session}
    (hs : ∀ id offset, s.memo.known id offset = ∅) :
    let R := chainRing name key label build h opParser itemParser op item
    ∃ out s', (∀ n, 3 * r.remaining + 12 ≤ n →
        (Parser.rule h).run rules n .zero r s = some (out, s')) ∧
      ∀ x, x ∈ out.results.items ↔ (∃ m, 1 ≤ m ∧ R.reach r 0 m = some x) ∨
        (∀ m, 1 ≤ m → R.reach r 0 m = none) ∧ item r = some x := by
  intro R
  have hR : R.In rules := chainRing_in hdef hop hitem hopOn hitemOn
  obtain ⟨out, s', hx, hmem⟩ := Ring.run_ring (r := r) hR Nat.one_pos
    (fun i hi hne => absurd (Nat.lt_one_iff.mp hi) hne) (fun _ _ => Nat.le_refl 2)
    (fun id => hs id r.cursor.offset)
  refine ⟨out, s', fun n hn => hx n ?_, fun x => ?_⟩
  · show 3 * (1 * (r.remaining + 2)) + 2 + 4 ≤ n
    omega
  · have hone : ∀ m, (0 + m) % R.size = 0 := fun m => Nat.mod_one (0 + m)
    rw [hmem, Ring.Reached]
    simp only [hone, true_and, forall_const]
    rfl

/-- The leading parts of a chain, the longer the later they end. -/
theorem sorted_leading {R : Ring} {t₀ : Nat} (hR : R.In rules) {ms : List Match}
    (hms : ∀ m, R.reach r t₀ m = ms[m]?) : ms.Pairwise fun x y => x.stopOffset < y.stopOffset := by
  apply List.pairwise_iff_getElem.mpr
  intro i j hi hj hij
  have hxi := (hms i).trans (List.getElem?_eq_getElem hi)
  have hxj := (hms j).trans (List.getElem?_eq_getElem hj)
  exact Ring.reach_lt hR hij hxi hxj

/-- Of a list the first element if it is the only one, else all others. -/
theorem mem_later_iff {α : Type} {a x : α} {l : List α} :
    x ∈ (if l = [] then [a] else l) ↔ (∃ m, 1 ≤ m ∧ (a :: l)[m]? = some x) ∨
      (∀ m, 1 ≤ m → (a :: l)[m]? = none) ∧ some a = some x := by
  have hlater : (∃ m, 1 ≤ m ∧ (a :: l)[m]? = some x) ↔ x ∈ l := by
    rw [List.mem_iff_getElem?]
    constructor
    · rintro ⟨m, hm, hx⟩
      obtain ⟨m, rfl⟩ := Nat.exists_eq_add_one.mpr hm
      exact ⟨m, hx⟩
    · rintro ⟨m, hx⟩
      exact ⟨m + 1, Nat.le_add_left 1 m, hx⟩
  rw [hlater]
  cases l with
  | nil =>
    have hnone : ∀ m, 1 ≤ m → [a][m]? = none := fun m hm => List.getElem?_eq_none hm
    rw [if_pos rfl, List.mem_singleton, Option.some.injEq, eq_comm]
    exact ⟨fun hx => .inr ⟨hnone, hx⟩, fun hx => (hx.resolve_left List.not_mem_nil).2⟩
  | cons b l =>
    rw [if_neg (List.cons_ne_nil b l)]
    refine ⟨.inl, fun hx => hx.resolve_right fun hnone => ?_⟩
    exact Option.some_ne_none b (hnone.1 1 (Nat.le_refl 1))

/-- **Every length.** The rule matches what starts with an item and goes on with pairs, each leading
part that holds a pair; without pairs, the item. -/
theorem chain_items (hdef : rules.state h.id =
      .defined (chainOf name key label build h opParser itemParser))
    (hop : opParser.Finds op) (hitem : itemParser.Finds item) (hopOn : ReadsOn op)
    (hitemOn : ReadsOn item) (r : Reader) {s : Session}
    (hs : ∀ id offset, s.memo.known id offset = ∅) :
    ∃ out s', (∀ n, 3 * r.remaining + 12 ≤ n →
        (Parser.rule h).run rules n .zero r s = some (out, s')) ∧
      (item r = none → out.results.items = []) ∧
      ∀ first ps r', item r = some first → Pairs op item first.reader ps r' → Stuck op item r' →
        out.results.items = if ps = [] then [first] else (ps.scanl (grow build) first).tail := by
  obtain ⟨out, s', hx, hreached⟩ := chain_reached hdef hop hitem hopOn hitemOn r hs
  have hR : (chainRing name key label build h opParser itemParser op item).In rules :=
    chainRing_in hdef hop hitem hopOn hitemOn
  set R := chainRing name key label build h opParser itemParser op item
  refine ⟨out, s', hx, fun hnone => ?_, fun first ps r' hfirst hps hstuck => ?_⟩
  · apply List.eq_nil_iff_forall_not_mem.mpr
    intro x hx
    rcases (hreached x).mp hx with ⟨m, -, hm⟩ | ⟨-, hfirst⟩
    · rw [Ring.reach_eq_none hnone m] at hm
      cases hm
    · rw [hnone] at hfirst
      cases hfirst
  · have hreach : ∀ m, R.reach r 0 m = (ps.scanl (grow build) first)[m]? := fun m =>
      (reach_chainRing hfirst m).trans (iterate_extend hps hstuck rfl m)
    obtain ⟨ms, hms, hempty⟩ : ∃ ms, ps.scanl (grow build) first = first :: ms ∧
        (ms = [] ↔ ps = []) := by
      cases ps with
      | nil => exact ⟨[], rfl, by simp⟩
      | cons p ps => exact ⟨_, List.scanl_cons, by simp⟩
    have hsorted := sorted_leading hR hreach
    simp only [hms] at hreach hsorted ⊢
    rw [List.tail_cons, ← if_congr hempty rfl rfl]
    have hlater : (if ms = [] then [first] else ms).Sublist (first :: ms) := by
      split
      · exact List.singleton_sublist.mpr List.mem_cons_self
      · exact List.sublist_cons_self first ms
    apply Ascending.items_eq_of_mem_iff (hsorted.sublist hlater)
    intro x
    rw [hreached, hfirst, mem_later_iff]
    simp only [hreach]

end Rule

/-! ### Values -/

/-- Of three children it takes the value of the first, and makes a value of the three. -/
def FoldsThree (interp : Interpreter) (f : Value → Value → Value → Except Fault Value) : Prop :=
  ∀ ctx (a o b : Child) vo vb, o.value ctx = .ok vo → b.value ctx = .ok vb →
    interp ctx [a, o, b] = (a.value ctx).bind fun va => f va vo vb

/-- The match has a node with this value. -/
def Match.Valued (ctx : Context) (m : Match) (v : Value) : Prop :=
  ∃ node, m.node = some node ∧ node.value ctx = .ok v

/-- **A left fold.** The value of the tree of some pairs folds theirs from the left. -/
theorem chain_value {token : String} {interp : Interpreter}
    {f : Value → Value → Value → Except Fault Value} (hf : FoldsThree interp f) {ctx : Context}
    {ps : List (Match × Match)} {vs : List (Value × Value)}
    (h : List.Forall₂ (fun p v => p.1.Valued ctx v.1 ∧ p.2.Valued ctx v.2) ps vs) :
    ∀ {t : Match} {node : Node} {v : Except Fault Value}, t.node = some node → node.value ctx = v →
      ∃ node', (ps.foldl (grow (.group token (some interp))) t).node = some node' ∧
        node'.value ctx = v.bind fun v => vs.foldlM (fun v w => f v w.1 w.2) v := by
  induction h with
  | nil =>
    intro t node v hnode hv
    refine ⟨node, hnode, hv.trans ?_⟩
    cases v <;> rfl
  | @cons p w ps vs hp _ ih =>
    intro t node v hnode hv
    obtain ⟨⟨o, ho, hvo⟩, b, hb, hvb⟩ := hp
    have hgrow : (grow (.group token (some interp)) t p).node =
        some (.group token [node, o, b] (some interp)) := by
      simp only [grow, hnode, ho, hb]
      rfl
    have hvalue : (Node.group token [node, o, b] (some interp)).value ctx =
        v.bind fun v => f v w.1 w.2 := by
      rw [← hv]
      exact hf ctx _ _ _ _ _ hvo hvb
    obtain ⟨node', hnode', hv'⟩ := ih hgrow hvalue
    refine ⟨node', hnode', hv'.trans ?_⟩
    cases v <;> rfl

section Evaluation

variable {rules : Rules} {name : String} {key : Key} {label : Option String} {h : Handle}
  {opParser itemParser : Parser}

/-- The longest match is the whole chain. -/
theorem foldl_mem_leading (build : Builder) (first : Match) (ps : List (Match × Match)) :
    ps.foldl (grow build) first ∈
      if ps = [] then [first] else (ps.scanl (grow build) first).tail := by
  cases ps with
  | nil => exact List.mem_singleton.mpr rfl
  | cons p ps =>
    rw [if_neg (List.cons_ne_nil p ps), List.scanl_cons, List.tail_cons, List.foldl_cons]
    exact List.mem_of_getLast? List.getLast?_scanl

/-- A text of items with operators between them is parsed as one chain. -/
theorem chain_parse (hdef : rules.state h.id =
      .defined (chainOf name key label build h opParser itemParser))
    (hop : opParser.Finds op) (hitem : itemParser.Finds item) (hopOn : ReadsOn op)
    (hitemOn : ReadsOn item) (s : Session) {first : Match} (hfirst : item r = some first)
    (hps : Pairs op item first.reader ps r') (hend : r'.atEnd = true) :
    ∃ s', Grammar.parse ⟨rules, .rule h⟩ r s = some (.ok (ps.foldl (grow build) first), s') := by
  set g : Grammar := ⟨rules, .rule h⟩
  obtain ⟨out, s', hx, -, hitems⟩ := chain_items hdef hop hitem hopOn hitemOn r
    (s := (s.note (.starting g.name r.cursor)).forget) (Session.known_forget _)
  have hall := hitems first ps r' hfirst hps (stuck_of_atEnd hopOn hend)
  have hmem : ∀ x ∈ out.results.items, x ∈ ps.scanl (grow build) first := by
    intro x hx
    rw [hall] at hx
    split at hx
    · rename_i hempty
      rwa [hempty, List.scanl_nil]
    · exact List.mem_of_mem_tail hx
  have hahead : ∀ x ∈ out.results.items, r.Ahead x.reader := fun x hx =>
    (hitemOn.ahead hfirst).trans (hps.ahead hopOn hitemOn rfl x (hmem x hx))
  have hlast : ps.foldl (grow build) first ∈ out.results.items := by
    rw [hall]
    exact foldl_mem_leading build first ps
  have hreader : (ps.foldl (grow build) first).reader = r' := hps.reader_foldl rfl
  have hselect : Grammar.select g.name r out = .ok (ps.foldl (grow build) first) :=
    Grammar.select_eq_ok hlast (by rwa [hreader]) hahead
  have hfuel : 3 * r.remaining + 12 ≤ g.fuel r := by
    have hle := r.remaining_le_limit
    have hmul := g.mul_le_fuel r
    have hweight : 8 * (r.source.limit + 8) ≤ (g.weight + 8) * (r.source.limit + 8) :=
      Nat.mul_le_mul_right _ (Nat.le_add_left 8 _)
    omega
  refine ⟨Grammar.noteRefusals out s', ?_⟩
  rw [Grammar.parse, Grammar.call, hx _ hfuel, ← hselect]
  rfl

/-- A text of items with operators between them evaluates to the left fold of their values. -/
theorem chain_evaluate {token : String} {interp : Interpreter}
    {f : Value → Value → Value → Except Fault Value} (hdef : rules.state h.id =
      .defined (chainOf name key label (.group token (some interp)) h opParser itemParser))
    (hop : opParser.Finds op) (hitem : itemParser.Finds item) (hopOn : ReadsOn op)
    (hitemOn : ReadsOn item) (hf : FoldsThree interp f) (s : Session) {ctx : Context}
    {first : Match} {v : Value} {vs : List (Value × Value)} (hfirst : item r = some first)
    (hps : Pairs op item first.reader ps r') (hend : r'.atEnd = true) (hv : first.Valued ctx v)
    (hvs : List.Forall₂ (fun p v => p.1.Valued ctx v.1 ∧ p.2.Valued ctx v.2) ps vs) :
    ∃ s', Grammar.evaluate ⟨rules, .rule h⟩ ctx r s =
      some (vs.foldlM (fun v w => f v w.1 w.2) v, s') := by
  obtain ⟨s', hparse⟩ := chain_parse hdef hop hitem hopOn hitemOn s hfirst hps hend
  obtain ⟨node, hnode, hvalue⟩ := hv
  set whole := ps.foldl (grow (.group token (some interp))) first
  obtain ⟨node', hnode', hvalue'⟩ : ∃ node', whole.node = some node' ∧
      node'.value ctx = (Except.ok v).bind fun v => vs.foldlM (fun v w => f v w.1 w.2) v :=
    chain_value hf hvs hnode hvalue
  have hvalued : whole.value ctx =
      vs.foldlM (fun v w => f v w.1 w.2) v := by
    simp only [Match.value, hnode', hvalue']
    rfl
  rw [Grammar.evaluate, hparse, ← hvalued]
  exact ⟨_, rfl⟩

/-- **Left recursion is complete and left-associative.** The rule finds every length of a chain of
items and operators with the tree that nests to the left, and no other match. Evaluated by an
interpreter of three nodes, a chain of any length is a left fold. -/
theorem chain_complete (hdef : rules.state h.id =
      .defined (chainOf name key label build h opParser itemParser))
    (hop : opParser.Finds op) (hitem : itemParser.Finds item) (hopOn : ReadsOn op)
    (hitemOn : ReadsOn item) (r : Reader) {s : Session}
    (hs : ∀ id offset, s.memo.known id offset = ∅) :
    (∃ out s', (∀ n, 3 * r.remaining + 12 ≤ n →
        (Parser.rule h).run rules n .zero r s = some (out, s')) ∧
      (item r = none → out.results.items = []) ∧
      ∀ first, item r = some first → ∃ ps r', Pairs op item first.reader ps r' ∧
        Stuck op item r' ∧
        out.results.items = if ps = [] then [first] else (ps.scanl (grow build) first).tail) ∧
    ∀ token interp f, build = .group token (some interp) → FoldsThree interp f →
      ∀ ctx first v ps (vs : List (Value × Value)) r', item r = some first → first.Valued ctx v →
        Pairs op item first.reader ps r' → r'.atEnd = true →
        List.Forall₂ (fun p w => p.1.Valued ctx w.1 ∧ p.2.Valued ctx w.2) ps vs →
        ∃ s', Grammar.evaluate ⟨rules, .rule h⟩ ctx r s =
          some (vs.foldlM (fun v w => f v w.1 w.2) v, s') := by
  constructor
  · obtain ⟨out, s', hx, hnone, hitems⟩ := chain_items hdef hop hitem hopOn hitemOn r hs
    refine ⟨out, s', hx, hnone, fun first hfirst => ?_⟩
    obtain ⟨ps, r', hps, hstuck⟩ := exists_pairs hopOn hitemOn _ first.reader (Nat.lt_succ_self _)
    exact ⟨ps, r', hps, hstuck, hitems first ps r' hfirst hps hstuck⟩
  · rintro token interp f rfl hf ctx first v ps vs r' hfirst hv hps hend hvs
    exact chain_evaluate hdef hop hitem hopOn hitemOn hf s hfirst hps hend hv hvs

end Evaluation

/-- Makes pairs of what an operator joins. -/
def pairing : Interpreter := fun ctx children =>
  match children with
  | [a, _, b] => (a.value ctx).bind fun va => (b.value ctx).map fun vb => .list [va, vb]
  | _ => .ok .nil

theorem foldsThree_pairing : FoldsThree pairing fun va _ vb => .ok (.list [va, vb]) := by
  intro ctx a o b vo vb _ hb
  simp only [pairing, hb]
  rfl

/-- Sums of the letter `a`. -/
def pairs : Rules := ⟨[⟨"sum", .defined (chainOf "sum" ⟨0⟩ none (.group "SUM" (some pairing))
  ⟨0, "sum", false⟩ (.terminal (.rune '+' "PLUS")) (.terminal (.rune 'a' "A")))⟩]⟩

theorem pairs_complete :
    (∃ out s', (Parser.rule ⟨0, "sum", false⟩).run pairs 30 .zero (Reader.ofText "a+a+a" true)
        .fresh = some (out, s')) ∧
      ∃ s', Grammar.evaluate ⟨pairs, .rule ⟨0, "sum", false⟩⟩ .none (Reader.ofText "a+a+a" true)
        .fresh = some (.ok (.list [.list [.char 'a', .char 'a'], .char 'a']), s') := by
  have hdef : pairs.state (Handle.mk 0 "sum" false).id = .defined (chainOf "sum" ⟨0⟩ none
      (.group "SUM" (some pairing)) ⟨0, "sum", false⟩ (.terminal (.rune '+' "PLUS"))
      (.terminal (.rune 'a' "A"))) := rfl
  obtain ⟨⟨out, s', hx, -⟩, heval⟩ := chain_complete hdef (s := .fresh) (Terminal.finds _) (Terminal.finds _) (Terminal.readsOn_rune '+' "PLUS")
    (Terminal.readsOn_rune 'a' "A") (Reader.ofText "a+a+a" true) (Session.known_forget .fresh)
  refine ⟨⟨out, s', hx 30 (by decide)⟩, ?_⟩
  exact heval "SUM" pairing _ rfl foldsThree_pairing .none _ (.char 'a') _
    [(.char '+', .char 'a'), (.char '+', .char 'a')] _ rfl ⟨_, rfl, rfl⟩
    (.cons rfl rfl (.cons rfl rfl .nil)) rfl
    (.cons ⟨⟨_, rfl, rfl⟩, _, rfl, rfl⟩ (.cons ⟨⟨_, rfl, rfl⟩, _, rfl, rfl⟩ .nil))

end Curtail
