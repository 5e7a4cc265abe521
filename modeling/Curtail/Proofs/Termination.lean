/-
# Every parse of a guarded grammar comes to an end

Left recursion is bounded only by refusals: a sequence may be entered at one
offset as often as there are bytes left, and once or twice more. So a call
either reads on, and then fewer bytes are left; or it enters a sequence, and
then there is less room, the number of entries that all sequences of the
grammar together have left at this offset; or it climbs down to a lower
parser. `Grammar.need` weighs the three against each other, and is what fuel
has to be compared with.

What is remembered does no harm, because it ends where this text ends at the
latest and not before the offset it is filed under (`Filed`).

Key definitions: `Parser.Bounded`, `Memo.room`, `Grammar.need`, `Filed`.
Key theorems: `Grammar.run_answers`, `Grammar.parse_ends`.
-/
import Curtail.Grammar.Draft
import Curtail.Proofs.Answers
import Curtail.Proofs.Fuel
import Curtail.Proofs.Guarded
import Curtail.Proofs.Yields
import Mathlib.Algebra.Order.BigOperators.Group.List
import Mathlib.Tactic.Linarith
import Mathlib.Tactic.Ring
import Mathlib.Tactic.Set

namespace Curtail

/-- A leaf that goes ahead, or a sequence of finitely many parts, or any other parser. -/
def Parser.Bounded : Parser → Prop
  | .leaf l => ∃ f, l.Pure f ∧ ∀ r, ∀ m ∈ (f r).results.items, r.Ahead m.reader
  | .sequence _ _ _ _ lookup parts => ∀ i, parts.length ≤ i → pick lookup parts i = none
  | _ => True

/-- A sequence of parts in order has finitely many. -/
theorem Parser.bounded_of_inOrder (key : Key) (label : Option String) (build : Builder)
    (accepts : Nat → Bool) (parts : List Parser) :
    (sequence key label build accepts some parts).Bounded := fun _ hi => List.getElem?_eq_none hi

/-! ### Matches go ahead -/

/-- All that is remembered ends in `source`, where it is filed or further on. -/
def Filed (source : Source) (s : Session) : Prop :=
  ∀ id offset, ∀ m ∈ (s.memo.known id offset).items,
    m.reader.source = source ∧ offset ≤ m.stopOffset ∧
      (offset < m.stopOffset → m.stopOffset ≤ source.limit)

theorem kept_filed (source : Source) : Run.Kept (Filed source) := Run.kept_forall

theorem filed_forget (source : Source) (s : Session) : Filed source s.forget :=
  Session.forall_of_forgotten s.known_forget

theorem Run.Chain.ahead {R : Nat → Reader → Match → Prop} {r : Reader}
    (hR : ∀ i r m, R i r m → r.Ahead m.reader) {k : Nat} {nodes : List Node} {r' : Reader}
    (h : Chain R r k nodes r') : r.Ahead r' :=
  h.reader_induction (.refl r) fun i r m hm ih => ih.trans (hR i r m hm)

/-- Reading ahead is passed on by all combinators. -/
theorem respects_ahead {rules : Rules} {P : Parser → Prop} (hP : rules.Closed P)
    (hbound : ∀ p, P p → p.Bounded) (source : Source) :
    rules.Respects P (Filed source) (fun r => r.source = source)
      (fun _ r m => r.Ahead m.reader) where
  closed := hP
  kept := kept_filed source
  terminal {t r m} _ hr hm := by
    have := t.ahead_of_mem_read hm
    exact ⟨this.source.trans hr, this⟩
  leaf {l} hl d r s out s' hr hs h := by
    obtain ⟨f, hf, hahead⟩ := hbound _ hl
    simp only [hf d r s, Option.some.injEq, Prod.mk.injEq] at h
    obtain ⟨rfl, rfl⟩ := h
    exact Run.yielded_now hs fun m hm => ⟨(hahead r m hm).source.trans hr, hahead r m hm⟩
  choice _ h := h
  sequence {key label build accepts lookup parts r m} h := by
    obtain ⟨k, nodes, hchain, -, -⟩ := h
    exact hchain.ahead fun i r m ⟨q, _, hq⟩ => hq
  repetition {b p r m} h := by
    obtain ⟨k, nodes, hchain, -, -, -⟩ := h
    exact hchain.ahead fun i r m hm => hm
  sentence h _ := h
  orEmpty h := h
  emptyGroup {token p r} := .refl r
  rule _ h := h
  memory {key label build accepts lookup parts} _ r s id found hr hs _ hfound := by
    refine ⟨Session.forall_grow hs fun m hm => ?_, fun m hm => ?_⟩
    · obtain ⟨hat, hahead⟩ := hfound m hm
      exact ⟨hat, hahead.le, fun hlt => hr ▸ hahead.inside hlt⟩
    · obtain ⟨hat, hle, hinside⟩ := hs id r.cursor.offset m hm
      exact ⟨hat, hat.trans hr.symm, hle, fun hlt => hr ▸ hinside hlt⟩

/-! ### What is left to do -/

/-- How many entries the sequences with some keys have left, all together, where `remaining` bytes
are left. -/
def Memo.room (memo : Memo) (keys : List Key) (d : Tally) (remaining : Nat) : Nat :=
  (keys.map fun key => remaining + 2 - memo.depth d key).sum

namespace Memo

variable {memo memo' : Memo} {keys : List Key} {d : Tally} {remaining : Nat}

/-- Further identities leave no more room. -/
theorem room_mono (h : memo.keys <+: memo'.keys) :
    memo'.room keys d remaining ≤ memo.room keys d remaining :=
  List.sum_le_sum fun key _ => Nat.sub_le_sub_left (depth_mono h key) _

/-- Entering a sequence that does not refuse leaves less room. -/
theorem room_inc_lt {key : Key} (hkey : key ∈ keys) {id : Nat} (hid : memo.idOf? key = some id)
    (hle : d.get id ≤ remaining + 1) :
    memo.room keys (d.inc id) remaining < memo.room keys d remaining := by
  refine List.sum_lt_sum _ _ (fun key' _ => Nat.sub_le_sub_left (memo.depth_inc d id key') _) ?_
  refine ⟨key, hkey, ?_⟩
  rw [depth_of_idOf? hid, depth_of_idOf? hid, Tally.get_inc, if_pos rfl]
  omega

theorem room_le (memo : Memo) (keys : List Key) (d : Tally) (remaining : Nat) :
    memo.room keys d remaining ≤ keys.length * (remaining + 2) := by
  have := List.sum_le_card_nsmul (keys.map fun key => remaining + 2 - memo.depth d key)
    (remaining + 2) fun n hn => by
      obtain ⟨key, -, rfl⟩ := List.mem_map.mp hn
      exact Nat.sub_le _ _
  simpa [room] using this

end Memo

namespace Grammar

/-- The keys of all sequences. -/
def keys (g : Grammar) : List Key := g.members.filterMap Parser.key?

theorem length_keys_le (g : Grammar) : g.keys.length ≤ g.weight := by
  rw [← g.length_members]
  exact List.length_filterMap_le _ _

theorem key_mem_keys {g : Grammar} {key : Key} {label : Option String} {build : Builder}
    {accepts : Nat → Bool} {lookup : Nat → Option Nat} {parts : List Parser}
    (h : .sequence key label build accepts lookup parts ∈ g.members) : key ∈ g.keys :=
  List.mem_filterMap.mpr ⟨_, h, rfl⟩

/-- How deep calls nest where `remaining` bytes of at most `limit` are left, with this much room, from
a parser of this height. -/
def need (g : Grammar) (limit remaining room height : Nat) : Nat :=
  remaining * (g.weight * (limit + 2) * (2 * g.weight + 1) + 2 * g.weight + 1) +
    room * (2 * g.weight + 1) + height + (g.weight + 2 * limit + 4)

variable {g : Grammar} {limit remaining room height : Nat}

theorem need_lt_of_height_lt {height' : Nat} (h : height' < height) :
    g.need limit remaining room height' < g.need limit remaining room height := by
  unfold need
  omega

theorem need_lt_of_room_lt {room' height' : Nat} (h : room' < room) (hh : height' ≤ 2 * g.weight) :
    g.need limit remaining room' height' < g.need limit remaining room height := by
  have : (room' + 1) * (2 * g.weight + 1) ≤ room * (2 * g.weight + 1) := Nat.mul_le_mul_right _ h
  rw [Nat.succ_mul] at this
  unfold need
  omega

theorem need_lt_of_remaining_lt {remaining' room' height' : Nat} (h : remaining' < remaining)
    (hr : room' ≤ g.weight * (limit + 2)) (hh : height' ≤ 2 * g.weight) :
    g.need limit remaining' room' height' < g.need limit remaining room height := by
  have hroom := Nat.mul_le_mul_right (2 * g.weight + 1) hr
  have hread := Nat.mul_le_mul_right
    (g.weight * (limit + 2) * (2 * g.weight + 1) + 2 * g.weight + 1) (Nat.succ_le_of_lt h)
  rw [Nat.succ_mul] at hread
  unfold need
  omega

theorem le_need (g : Grammar) (limit remaining room height : Nat) :
    g.weight + 2 * limit + 4 ≤ g.need limit remaining room height := Nat.le_add_left _ _

/-- The fuel of a grammar is enough for what its root needs. -/
theorem need_le_fuel (g : Grammar) (r : Reader) (hrem : remaining ≤ r.source.limit)
    (hroom : room ≤ g.weight * (r.source.limit + 2)) (hheight : height ≤ 2 * g.weight) :
    g.need r.source.limit remaining room height ≤ g.fuel r := by
  show g.need r.source.limit remaining room height ≤
    64 * ((g.weight + 8) * (r.source.limit + 8) * ((g.weight + 8) * (r.source.limit + 8)))
  unfold need
  generalize g.weight = w at *
  generalize r.source.limit = l at *
  have hread : remaining * (w * (l + 2) * (2 * w + 1) + 2 * w + 1) ≤
      l * (w * (l + 2) * (2 * w + 1) + 2 * w + 1) := Nat.mul_le_mul_right _ hrem
  have henter : room * (2 * w + 1) ≤ w * (l + 2) * (2 * w + 1) := Nat.mul_le_mul_right _ hroom
  have hsum : l * (w * (l + 2) * (2 * w + 1) + 2 * w + 1) + w * (l + 2) * (2 * w + 1) +
      2 * w + (w + 2 * l + 4) ≤ 64 * ((w + 8) * (l + 8) * ((w + 8) * (l + 8))) := by
    ring_nf
    nlinarith [Nat.zero_le (w * l), Nat.zero_le (w ^ 2 * l), Nat.zero_le (w * l ^ 2),
      Nat.zero_le (w ^ 2 * l ^ 2)]
  omega

/-- The room where nothing has been entered. -/
theorem room_le_weight (g : Grammar) (memo : Memo) {d : Tally} (h : remaining ≤ limit) :
    memo.room g.keys d remaining ≤ g.weight * (limit + 2) :=
  Nat.le_trans (memo.room_le _ _ _) (Nat.mul_le_mul g.length_keys_le (by omega))

/-! ### The induction -/

section Ends

variable (hg : g.Guarded) (hb : ∀ p ∈ g.members, p.Bounded) {source : Source}

/-- A place from which calls that need at most `n` can be made, in all sessions after `s₀`. -/
def Ready (g : Grammar) (source : Source) (s₀ : Session) (height n : Nat) (d : Tally) (r : Reader) :
    Prop :=
  r.source = source ∧
    g.need source.limit r.remaining (s₀.memo.room g.keys d r.remaining) height ≤ n

theorem Ready.lower {s₀ : Session} {n height' : Nat} {d : Tally} {r : Reader}
    (h : g.Ready source s₀ height n d r) (hh : height' ≤ height) :
    g.Ready source s₀ height' n d r :=
  ⟨h.1, Nat.le_trans (by unfold need; omega) h.2⟩

/-- After a match there is a place again from which calls can be made. -/
theorem Ready.next {s₀ : Session} {n : Nat} {d : Tally} {r r' : Reader}
    (h : g.Ready source s₀ height n d r) (hh : height ≤ 2 * g.weight) (hahead : r.Ahead r') :
    g.Ready source s₀ height n (Run.depthsAfter d r r') r' := by
  obtain ⟨hs, hn⟩ := h
  refine ⟨hahead.source.trans hs, ?_⟩
  unfold Run.depthsAfter
  split
  · rename_i hlt
    have hless := hahead.remaining_lt hlt
    have hle : r'.remaining ≤ source.limit := by
      have := r'.remaining_le_limit
      rwa [hahead.source, hs] at this
    exact Nat.le_trans (Nat.le_of_lt (need_lt_of_remaining_lt hless (g.room_le_weight _ hle) hh)) hn
  · rename_i hle
    rw [hahead.remaining_eq hle]
    exact hn

include hb in
/-- What an answered call leaves behind. -/
theorem answers_of_ends {n : Nat} {p : Parser} (hp : p ∈ g.members) {s₀ : Session} {d : Tally}
    {r : Reader} (hr : g.Ready source s₀ (g.rules.height p) n d r)
    (ih : ∀ {s}, Filed source s →
      g.need source.limit r.remaining (s.memo.room g.keys d r.remaining) (g.rules.height p) ≤ n →
      ∃ x, p.run g.rules n d r s = some x) :
    Run.Answers (fun s => Filed source s ∧ s₀.Grows s) (p.run g.rules n) d r fun m =>
      r.Ahead m.reader := by
  intro s ⟨hs, hgrows⟩
  have hroom : s.memo.room g.keys d r.remaining ≤ s₀.memo.room g.keys d r.remaining :=
    Memo.room_mono hgrows
  have hneed : g.need source.limit r.remaining (s.memo.room g.keys d r.remaining)
      (g.rules.height p) ≤ n := by
    refine Nat.le_trans ?_ hr.2
    unfold need
    have := Nat.mul_le_mul_right (2 * g.weight + 1) hroom
    omega
  obtain ⟨⟨out, s'⟩, hx⟩ := ih hs hneed
  have hy := Parser.run_yields (respects_ahead g.closed_members hb source) n hp hr.1 hs hx
  exact ⟨out, s', hx, ⟨hy.kept, hgrows.trans hy.grows⟩, fun m hm => (hy.found m hm).2⟩

/-- With fuel `n`, calls of members at places ready for them come to an end. -/
def CallsEnd (g : Grammar) (source : Source) (n : Nat) : Prop :=
  ∀ {q : Parser}, q ∈ g.members → ∀ {s₀ : Session} {d : Tally} {r : Reader},
    g.Ready source s₀ (g.rules.height q) n d r →
      Run.Answers (fun s => Filed source s ∧ s₀.Grows s) (q.run g.rules n) d r fun m =>
        r.Ahead m.reader

variable {n : Nat} {d : Tally} {r : Reader} {s : Session}

theorem choice_ends (call : g.CallsEnd source n) {name : String} {ps : List Parser}
    (hs : Filed source s)
    (hready : ∀ q ∈ ps, q ∈ g.members ∧ g.Ready source s (g.rules.height q) n d r) :
    ∃ x, (Parser.choice name ps).run g.rules (n + 1) d r s = some x := by
  have hall : ∀ f ∈ ps.map (Parser.run g.rules n), ∀ ⦃s'⦄, Filed source s' ∧ s.Grows s' →
      ∃ out s'', f d r s' = some (out, s'') ∧ Filed source s'' ∧ s.Grows s'' := by
    intro f hf s' hs'
    obtain ⟨q, hq, rfl⟩ := List.mem_map.mp hf
    obtain ⟨hmem, hq⟩ := hready q hq
    obtain ⟨out, s'', hx, hs'', -⟩ := call hmem hq hs'
    exact ⟨out, s'', hx, hs''⟩
  obtain ⟨out, s', hx, -⟩ := Run.choice_answers (fun h => h) hall ⟨hs, .refl s⟩
  exact ⟨_, hx⟩

/-- A sequence refuses, or entering it leaves less room, whatever its parts are. -/
theorem sequence_ends (call : g.CallsEnd source n) {key : Key} {label : Option String}
    {build : Builder} {accepts : Nat → Bool} {lookup : Nat → Option Nat} {parts : List Parser}
    (hp : Parser.sequence key label build accepts lookup parts ∈ g.members)
    (hbounded : (Parser.sequence key label build accepts lookup parts).Bounded)
    (hr : r.source = source) (hs : Filed source s)
    (hn : g.need source.limit r.remaining (s.memo.room g.keys d r.remaining)
      (g.rules.height (.sequence key label build accepts lookup parts)) ≤ n + 1) :
    ∃ x, (Parser.sequence key label build accepts lookup parts).run g.rules (n + 1) d r s =
      some x := by
  rw [Parser.run_sequence]
  cases hrefuses : Run.refuses d r (s.countCall.register key).1 with
  | true => exact ⟨_, Run.sequence_eq_some.mpr (.inl ⟨hrefuses, rfl⟩)⟩
  | false =>
    have hid := s.idOf?_register key
    have hgrows : s.Grows (s.countCall.register key).2 := s.grows_register key
    have hs₁ : Filed source (s.countCall.register key).2 := (kept_filed source).register key hs
    set id := (s.countCall.register key).1
    set s₁ := (s.countCall.register key).2
    have hroom : s₁.memo.room g.keys (d.inc id) r.remaining <
        s.memo.room g.keys d r.remaining := by
      refine Nat.lt_of_lt_of_le (Memo.room_inc_lt (key_mem_keys hp) hid ?_) (Memo.room_mono hgrows)
      simpa [Run.refuses] using hrefuses
    have hready : g.Ready source s₁ (2 * g.weight) n (d.inc id) r :=
      ⟨hr, Nat.le_of_lt_succ (Nat.lt_of_lt_of_le (need_lt_of_room_lt hroom (Nat.le_refl _)) hn)⟩
    have hcall : ∀ {i f d r}, (Parser.steps g.rules n build accepts lookup parts).part i = some f →
        g.Ready source s₁ (2 * g.weight) n d r →
        Run.Answers (fun s => Filed source s ∧ s₁.Grows s) f d r fun m =>
          g.Ready source s₁ (2 * g.weight) n (Run.depthsAfter d r m.reader) m.reader := by
      intro i f d r hf hready
      obtain ⟨q, hq, rfl⟩ := Option.map_eq_some_iff.mp hf
      have hmem := g.closed_members.part hp (Parser.mem_of_pick hq)
      exact (call hmem (hready.lower (height_le hmem))).mono fun m hahead =>
        hready.next (Nat.le_refl _) hahead
    have hn' : parts.length - 0 < n := by
      have hneed := g.le_need source.limit r.remaining (s.memo.room g.keys d r.remaining)
        (g.rules.height (.sequence key label build accepts lookup parts))
      have hweight := weight_le_of_mem hp
      have hlength := length_le_weightAll parts
      rw [Parser.weight] at hweight
      omega
    have hstops : ∀ i, parts.length ≤ i →
        (Parser.steps g.rules n build accepts lookup parts).part i = none := fun i hi =>
      Option.map_eq_none_iff.mpr (hbounded i hi)
    obtain ⟨out, s', hw, -⟩ := Run.walk_answers hstops hcall hready hn' ⟨hs₁, .refl s₁⟩
    exact ⟨_, Run.sequence_eq_some.mpr (.inr ⟨hrefuses, out, s', hw, rfl⟩)⟩

theorem repetition_ends (call : g.CallsEnd source n) {b : Run.Bounds} {q : Parser}
    (hq : q ∈ g.members) (hready : g.Ready source s (g.rules.height q) n d r) (hs : Filed source s)
    (hn : 2 * r.remaining + 2 ≤ n) :
    ∃ x, (Parser.repetition b q).run g.rules (n + 1) d r s = some x := by
  rw [Parser.run_repetition]
  have hcall : ∀ {d r}, g.Ready source s (g.rules.height q) n d r →
      Run.Answers (fun s' => Filed source s' ∧ s.Grows s') (q.run g.rules n) d r fun m =>
        r.Ahead m.reader ∧
          g.Ready source s (g.rules.height q) n (Run.depthsAfter d r m.reader) m.reader := by
    intro d r hready
    exact (call hq hready).mono fun m hahead => ⟨hahead, hready.next (height_le hq) hahead⟩
  have hstart : Filed source s.countCall ∧ s.Grows s.countCall := ⟨hs, .refl s⟩
  have hn' : 2 * r.remaining + (if false then 1 else 2) ≤ n := by simpa using hn
  obtain ⟨out, s', hx, -⟩ := Run.cycle_answers hcall hready hn' hstart
  exact ⟨_, hx⟩

include hg hb in
/-- With the fuel it needs, every call of a member comes to an end. -/
theorem run_answers (n : Nat) : ∀ {p : Parser}, p ∈ g.members → ∀ {d : Tally} {r : Reader}
    {s : Session}, r.source = source → Filed source s →
    g.need source.limit r.remaining (s.memo.room g.keys d r.remaining) (g.rules.height p) ≤ n →
    ∃ x, p.run g.rules n d r s = some x := by
  induction n with
  | zero =>
    intro p _ d r s _ _ hn
    have := g.le_need source.limit r.remaining (s.memo.room g.keys d r.remaining) (g.rules.height p)
    omega
  | succ n ih =>
    intro p hp d r s hr hs hn
    have call : g.CallsEnd source n := fun hq _ _ _ hready =>
      answers_of_ends hb hq hready fun hs h => ih hq hready.1 hs h
    -- what is lower than `p` can be called at the same place
    have hlower : ∀ {q : Parser}, g.rules.height q < g.rules.height p →
        g.Ready source s (g.rules.height q) n d r := fun hlt =>
      ⟨hr, Nat.le_of_lt_succ (Nat.lt_of_lt_of_le (need_lt_of_height_lt hlt) hn)⟩
    have hparts : p.isSequence = false → ∀ q ∈ p.parts,
        q ∈ g.members ∧ g.Ready source s (g.rules.height q) n d r := fun hsequence q hq =>
      ⟨g.closed_members.part hp hq, hlower (Rules.height_part_lt hsequence hq)⟩
    have hstart : Filed source s ∧ s.Grows s := ⟨hs, .refl s⟩
    cases p with
    | terminal t => exact ⟨_, rfl⟩
    | leaf l => exact ⟨_, rfl⟩
    | choice name ps => exact choice_ends call hs (hparts rfl)
    | sequence key label build accepts lookup parts => exact sequence_ends call hp (hb _ hp) hr hs hn
    | repetition b q =>
      obtain ⟨hq, hready⟩ := hparts rfl q (List.mem_singleton.mpr rfl)
      have hneed := g.le_need source.limit r.remaining (s.memo.room g.keys d r.remaining)
        (g.rules.height (.repetition b q))
      have hlimit := r.remaining_le_limit
      rw [hr] at hlimit
      exact repetition_ends call hq hready hs (by omega)
    | sentence q =>
      rw [Parser.run_sentence]
      obtain ⟨hq, hready⟩ := hparts rfl q (List.mem_singleton.mpr rfl)
      obtain ⟨out, s', hx, -⟩ := call hq hready (s := s.countCall) hstart
      exact ⟨_, Run.sentence_eq_some.mpr ⟨out, s', hx, rfl⟩⟩
    | orEmpty token q =>
      rw [Parser.run_orEmpty]
      obtain ⟨hq, hready⟩ := hparts rfl q (List.mem_singleton.mpr rfl)
      obtain ⟨out, s', hx, -⟩ := call hq hready hstart
      exact ⟨_, Run.orEmpty_eq_some.mpr ⟨out, s', hx, rfl⟩⟩
    | rule h =>
      rw [Parser.run_rule]
      cases hstate : g.rules.state h.id with
      | defined q =>
        have hready := hlower (Rules.height_definition_lt hg hstate)
        obtain ⟨out, s', hx, -⟩ := call (definition_mem_members hstate) hready hstart
        exact ⟨_, hx⟩
      | undefined => exact ⟨_, rfl⟩
      | dropped => exact ⟨_, rfl⟩

end Ends

/-! ### Termination -/

/-- With its fuel, a guarded grammar comes to an end in every session that has forgotten other texts. -/
theorem root_answers (hg : g.Guarded) (hb : ∀ p ∈ g.members, p.Bounded) {r : Reader} {s : Session}
    (hs : Filed r.source s) : ∃ x, g.root.run g.rules (g.fuel r) .zero r s = some x := by
  have hroot := g.root_mem_members
  have hroom : s.memo.room g.keys .zero r.remaining ≤ g.weight * (r.source.limit + 2) :=
    g.room_le_weight s.memo r.remaining_le_limit
  exact run_answers hg hb (g.fuel r) hroot rfl hs
    (g.need_le_fuel r r.remaining_le_limit hroom (height_le hroot))

/-- **Every parse of a guarded grammar comes to an end**, however its rules recurse on the left. From
the fuel of the grammar on, more fuel does not change the answer. -/
theorem parse_ends (hg : g.Guarded) (hb : ∀ p ∈ g.members, p.Bounded) (r : Reader) (s : Session) :
    ∃ out s', (∀ n, g.fuel r ≤ n →
        g.root.run g.rules n .zero r (s.note (.starting g.name r.cursor)).forget =
          some (out, s')) ∧
      g.parse r s = some (select g.name r out, noteRefusals out s') := by
  have hs := filed_forget r.source (s.note (.starting g.name r.cursor))
  obtain ⟨⟨out, s'⟩, hx⟩ := root_answers hg hb hs
  refine ⟨out, s', fun n hn => Parser.run_mono hn hx, ?_⟩
  rw [parse, call, hx]
  rfl

/-- A grammar in which two rules recurse on the left through each other, one of them hidden behind a
repetition that may read nothing. -/
def hiddenRecursion : Grammar where
  rules := ⟨[
    ⟨"sum", .defined (.choice "sum" [
      .sequence ⟨0⟩ none (.group "SUM" none) (Draft.between 3 3) some
        [.rule ⟨0, "sum", false⟩, .terminal (.rune '+' "PLUS"), .rule ⟨1, "term", false⟩],
      .rule ⟨1, "term", false⟩])⟩,
    ⟨"term", .defined (.choice "term" [
      .sequence ⟨1⟩ none (.group "CALL" none) (Draft.between 3 3) some
        [.repetition ⟨0, none, .group "SIGNS" none⟩ (.terminal (.rune '-' "MINUS")),
          .rule ⟨0, "sum", false⟩, .terminal (.rune '!' "BANG")],
      .terminal (.rune 'a' "A")])⟩]⟩
  root := .sentence (.rule ⟨0, "sum", true⟩)

theorem hiddenRecursion_guarded : hiddenRecursion.Guarded := by
  refine guarded_of_rank (1 - ·) ?_
  rintro i j ⟨p, hp, hj⟩
  match i with
  | 0 =>
    cases hp
    obtain rfl : j = 1 := by simpa [Parser.exposed, exposedAll] using hj
    decide
  | 1 =>
    cases hp
    simp [Parser.exposed, exposedAll] at hj
  | _ + 2 => cases hp

theorem hiddenRecursion_bounded : ∀ p ∈ hiddenRecursion.members, p.Bounded := by
  intro p hp
  cases p with
  | leaf l => simp [hiddenRecursion, members, Rules.definitions, Parser.members, membersAll] at hp
  | sequence key label build accepts lookup parts =>
    simp [hiddenRecursion, members, Rules.definitions, Parser.members, membersAll] at hp
    rcases hp with ⟨-, -, -, -, rfl, -⟩ | ⟨-, -, -, -, rfl, -⟩ <;>
      exact Parser.bounded_of_inOrder _ _ _ _ _
  | _ => trivial

theorem hiddenRecursion_ends :
    hiddenRecursion.Guarded ∧ (∀ p ∈ hiddenRecursion.members, p.Bounded) ∧
      ∃ result s', hiddenRecursion.parse (Reader.ofText "-a!+a" true) .fresh =
        some (result, s') := by
  refine ⟨hiddenRecursion_guarded, hiddenRecursion_bounded, ?_⟩
  obtain ⟨out, s', -, hx⟩ := parse_ends hiddenRecursion_guarded hiddenRecursion_bounded
    (Reader.ofText "-a!+a" true) .fresh
  exact ⟨_, _, hx⟩

end Grammar

end Curtail
