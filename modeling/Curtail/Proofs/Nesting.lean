/-
# Depths count the frames at one place

A sequence that is being followed is a frame: it was entered at some offset and
has not been left. Calls nest, so the frames that are active form a stack, and
the depths that a call is given are meant to count those of them that were
entered where the call stands. They are passed on by value: kept where nothing
was read, cleared where something was, and shared by all that is called at one
place. That they count right is a matter of every call at any moment of a run,
also of a run that never ends, so it is shown along the calls that are made:
what one call hands to the next, and from it what any nested call is given.
They are the calls of the engine: with what they answer a call has its own
answer.

It takes leaves that do not go back. Then all frames lie at or before the place
of a call, and none lies where text was just read.

Key definitions: `Session.Onward`, `Leaf.Onward`, `Run.Counted`, `Call.Sound`.
Key theorems: `Run.Counted.next`, `Run.Counted.enter`, `Call.Sound.makes`,
`Grammar.depths_count_frames`.
-/
import Curtail.Proofs.Calls
import Curtail.Proofs.Reading
import Curtail.Proofs.Reports
import Curtail.Proofs.Soundness
import Mathlib.Logic.Relation

namespace Curtail

namespace Call

/-- How many frames of an identity were entered where a call stands. -/
def active (c : Call) (id : Nat) : Nat :=
  c.frames.countP fun f => f.id = id ∧ f.offset = c.reader.cursor.offset

/-- How many frames of the sequence with a key were entered where a call stands. -/
def activeOf (c : Call) (key : Key) : Nat :=
  c.frames.countP fun f => f.key = key ∧ f.offset = c.reader.cursor.offset

end Call

/-! ### Leaves that do not go back -/

/-- All that is remembered ends in `source`, and not before the offset it is filed under. -/
def Session.Onward (source : Source) (s : Session) : Prop :=
  ∀ id offset, ∀ m ∈ (s.memo.known id offset).items,
    m.reader.source = source ∧ offset ≤ m.stopOffset

/-- Where nothing that is remembered goes back, a leaf does not go back: its matches, and those it
may file itself, end in the same source and not before they start. It takes no identity away. -/
structure Leaf.Onward (l : Leaf) : Prop where
  found : ∀ d r s, s.Onward r.source → ∀ m ∈ (l.answer d r s).1.results.items,
    m.reader.source = r.source ∧ r.cursor.offset ≤ m.stopOffset
  filed : ∀ d r s, s.Onward r.source → (l.answer d r s).2.Onward r.source
  grows : ∀ d r (s : Session), s.Grows (l.answer d r s).2

theorem Session.onward_of_forgotten {s : Session} (h : ∀ id offset, s.memo.known id offset = ∅)
    (source : Source) : s.Onward source := forall_of_forgotten h

theorem kept_onward (source : Source) : Run.Kept (Session.Onward source) := Run.kept_forall

theorem Run.Chain.offset_le {R : Nat → Reader → Match → Prop} {r : Reader}
    (hR : ∀ i r m, R i r m → r.cursor.offset ≤ m.stopOffset) {k : Nat} {nodes : List Node}
    {r' : Reader} (h : Chain R r k nodes r') : r.cursor.offset ≤ r'.cursor.offset :=
  h.reader_induction (Nat.le_refl _) fun i r m hm ih => Nat.le_trans ih (hR i r m hm)

/-- Not going back is passed on by all combinators. -/
theorem respects_onward {rules : Rules} {P : Parser → Prop} (hP : rules.Closed P)
    (hleaf : ∀ l, P (.leaf l) → l.Onward) (source : Source) :
    rules.Respects P (Session.Onward source) (fun r => r.source = source)
      (fun _ r m => r.cursor.offset ≤ m.stopOffset) where
  closed := hP
  kept := kept_onward source
  terminal {t r m} _ hr hm := by
    have hahead := t.ahead_of_mem_read hm
    exact ⟨hahead.source.trans hr, hahead.le⟩
  leaf {l} hl d r s out s' hr hs h := by
    have honward := hleaf l hl
    obtain ⟨rfl, rfl⟩ := Prod.mk.inj (Option.some.inj h)
    subst hr
    exact ⟨honward.grows d r s, honward.filed d r s hs, honward.found d r s hs⟩
  choice _ h := h
  sequence {key label build accepts lookup parts r m} h := by
    obtain ⟨k, nodes, hchain, -, -⟩ := h
    exact hchain.offset_le fun i r m ⟨q, _, hq⟩ => hq
  repetition {b p r m} h := by
    obtain ⟨k, nodes, hchain, -, -, -⟩ := h
    exact hchain.offset_le fun i r m hm => hm
  sentence h _ := h
  orEmpty h := h
  emptyGroup {token p r} := Nat.le_refl _
  rule _ h := h
  memory {key label build accepts lookup parts} _ r s id found hr hs _ hfound :=
    ⟨Session.forall_grow hs hfound, hs id r.cursor.offset⟩

/-- What calls on one text have left in a session is of that text. -/
theorem Session.Used.onward {rules : Rules} {P : Parser → Prop} (hP : rules.Closed P)
    (hleaf : ∀ l, P (.leaf l) → l.Onward) {source : Source} {s : Session}
    (h : s.Used rules P source) : s.Onward source := by
  induction h with
  | forgotten hnone => exact onward_of_forgotten hnone source
  | called _ hp hr hrun ih =>
    exact (Parser.run_yields (respects_onward hP hleaf source) _ hp hr.1 ih hrun).kept
  | otherwise _ _ hknown ih => exact forall_of_known ih hknown

/-! ### Depths and frames -/

namespace Run

/-- The depths count the frames at the reader, of which there are at most two more for each identity
than bytes left; no frame lies further on, and the identities of frames are those of their keys. -/
structure Counted (frames : List Frame) (a : Args) : Prop where
  before : ∀ f ∈ frames, f.offset ≤ a.reader.cursor.offset
  filed : ∀ f ∈ frames, a.session.memo.idOf? f.key = some f.id
  count : ∀ id, a.depths.get id =
    frames.countP fun f => f.id = id ∧ f.offset = a.reader.cursor.offset
  bounded : ∀ id, a.depths.get id ≤ a.reader.remaining + 2

variable {frames : List Frame} {a : Args} {source : Source}

theorem counted_start (r : Reader) (s : Session) : Counted [] ⟨.zero, r, s⟩ :=
  ⟨nofun, nofun, fun _ => rfl, fun _ => Nat.zero_le _⟩

theorem Counted.grow (h : Counted frames a) {s : Session} (hs : a.session.Grows s) :
    Counted frames ⟨a.depths, a.reader, s⟩ :=
  ⟨h.before, fun f hf => Memo.idOf?_mono hs (h.filed f hf), h.count, h.bounded⟩

/-- Going on to a reader that is not further back: where nothing was read the same frames count, and
where something was read there is none yet. -/
theorem Counted.next (h : Counted frames a) {r : Reader} (hsource : r.source = a.reader.source)
    (hle : a.reader.cursor.offset ≤ r.cursor.offset) :
    Counted frames ⟨depthsAfter a.depths a.reader r, r, a.session⟩ := by
  refine ⟨fun f hf => Nat.le_trans (h.before f hf) hle, h.filed, fun id => ?_, fun id => ?_⟩
  · unfold depthsAfter
    split
    · rename_i hlt
      rw [Tally.get_zero, eq_comm, List.countP_eq_zero]
      intro f hf
      have hbefore := h.before f hf
      simp only [decide_eq_true_eq, not_and]
      intro _ heq
      omega
    · have heq : r.cursor.offset = a.reader.cursor.offset := by omega
      rw [heq]
      exact h.count id
  · unfold depthsAfter
    split
    · exact Nat.zero_le _
    · have heq : r.cursor.offset = a.reader.cursor.offset := by omega
      have hremaining : r.remaining = a.reader.remaining := by
        unfold Reader.remaining
        rw [hsource, heq]
      show a.depths.get id ≤ r.remaining + 2
      rw [hremaining]
      exact h.bounded id

/-- A sequence that is not refused is counted as it becomes a frame. -/
theorem Counted.enter (h : Counted frames a) {key : Key}
    (hrefuses : refuses a.depths a.reader (a.session.countCall.register key).1 = false) :
    Counted (⟨key, (a.session.countCall.register key).1, a.reader.cursor.offset⟩ :: frames)
      ⟨a.depths.inc (a.session.countCall.register key).1, a.reader,
        (a.session.countCall.register key).2⟩ := by
  have hold := h.grow (a.session.grows_register key)
  have hroom : a.depths.get (a.session.countCall.register key).1 ≤ a.reader.remaining + 1 := by
    simpa [refuses] using hrefuses
  refine ⟨?_, ?_, fun id => ?_, fun id => ?_⟩
  · exact List.forall_mem_cons.mpr ⟨Nat.le_refl _, h.before⟩
  · exact List.forall_mem_cons.mpr ⟨a.session.idOf?_register key, hold.filed⟩
  · rw [Tally.get_inc, List.countP_cons, ← hold.count]
    by_cases heq : (a.session.countCall.register key).1 = id
    · simp [heq]
    · simp [heq]
  · rw [Tally.get_inc]
    split
    · show _ + 1 ≤ a.reader.remaining + 2
      omega
    · exact h.bounded id

/-- A sequence is refused exactly where it has two frames more than there are bytes left. -/
theorem Counted.refuses_iff (h : Counted frames a) (id : Nat) : refuses a.depths a.reader id = true ↔
    a.depths.get id = a.reader.remaining + 2 := by
  have hbound := h.bounded id
  simp only [refuses, decide_eq_true_eq]
  omega

/-! ### What loops hand on -/

/-- The reader is in `source`, what is remembered does not go back there, and the frames are
counted. -/
structure Sound (source : Source) (frames : List Frame) (a : Args) : Prop where
  reads : a.reader.source = source
  onward : a.session.Onward source
  counted : Counted frames a

/-- The run does not go back in `source`. -/
abbrev GoesOn (source : Source) (p : Run) : Prop :=
  Yields (Session.Onward source) (fun r => r.source = source) p
    fun r m => r.cursor.offset ≤ m.stopOffset

/-- Going on from a match, in a session that grew meanwhile. -/
theorem Sound.next (h : Sound source frames a) {m : Match} {s : Session}
    (hm : m.reader.source = source ∧ a.reader.cursor.offset ≤ m.stopOffset)
    (hgrows : a.session.Grows s) (hs : s.Onward source) :
    Sound source frames ⟨depthsAfter a.depths a.reader m.reader, m.reader, s⟩ where
  reads := hm.1
  onward := hs
  counted := (h.counted.next (hm.1.trans h.reads.symm) hm.2).grow hgrows

theorem choice_sound {d : Tally} {r : Reader} {ps : List Run} {s s' : Session} {i : Nat}
    (hps : ∀ p ∈ ps, GoesOn source p) (h : ChoiceCalls d r ps s i s')
    (hs : Sound source frames ⟨d, r, s⟩) : Sound source frames ⟨d, r, s'⟩ := by
  induction h with
  | @here p ps s => exact ⟨hs.reads, hs.onward, hs.counted.grow (.refl s)⟩
  | @further p ps s s₁ s' out i hp _ _ ih =>
    have hcall := hps p List.mem_cons_self hs.reads (show s.countCall.Onward source from hs.onward) hp
    exact ih (fun q hq => hps q (List.mem_cons_of_mem _ hq))
      ⟨hs.reads, hcall.kept, hs.counted.grow hcall.grows⟩

/-- All that a walk calls is sound. The nodes gathered so far come from a chain of matches. -/
theorem walk_sound {steps : Steps} (hpart : ∀ i p, steps.part i = some p → GoesOn source p)
    {r₀ : Reader} {fuel k i : Nat} {a a' : Args} {nodes : List Node}
    (h : WalkCalls steps fuel a k nodes i a')
    (hchain : Chain (fun _ r m => r.cursor.offset ≤ m.stopOffset) r₀ k nodes.reverse a.reader)
    (hs : Sound source frames a) : Sound source frames a' := by
  induction h with
  | here => exact hs
  | @further fuel k i a a' nodes p out rest s₁ s₂ before after m hk hp hitems hbefore _ ih =>
    have hcall := hpart k p hk hs.reads hs.onward hp
    have hon : ∀ x ∈ out.results.items,
        Chain (fun _ r m => r.cursor.offset ≤ m.stopOffset) r₀ (k + 1)
          (x.node.toList ++ nodes).reverse x.reader := fun x hx => by
      rw [reverse_toList_append]
      exact hchain.snoc (hcall.found x hx).2
    have hmem : m ∈ out.results.items := by rw [hitems]; simp
    have hothers := gather_yields (fun x hx s _ s' hs h =>
      have hx : x ∈ out.results.items := by rw [hitems]; exact List.mem_append_left _ hx
      walk_yields hpart (hcall.found x hx).1 hs (hon x hx) h) hcall.kept hbefore
    exact ih (hon m hmem)
      (hs.next (hcall.found m hmem) (hcall.grows.trans hothers.grows) hothers.kept)

/-- All that a repetition calls is sound. -/
theorem cycle_sound {b : Bounds} {p : Run} (hp : GoesOn source p) {r₀ : Reader} {fuel count : Nat}
    {a a' : Args} {nodes : List Node} {stalled : Bool}
    (h : CycleCalls b p fuel a nodes count stalled a')
    (hchain : Chain (fun _ r m => r.cursor.offset ≤ m.stopOffset) r₀ count nodes.reverse a.reader)
    (hs : Sound source frames a) : Sound source frames a' := by
  induction h with
  | here => exact hs
  | @further fuel count a a' nodes stalled out rest s₁ s₂ before after m hfull hout hitems hbefore _
      _ ih =>
    have hcall := hp hs.reads hs.onward hout
    have hmem : m ∈ out.results.items := by rw [hitems]; simp
    have hothers := gather_yields (fun x hx s _ s' hs h =>
      have hx : x ∈ out.results.items := by rw [hitems]; exact List.mem_append_left _ hx
      cycleOn_yields (cycle_yields hp) (hcall.found x hx).1 (hcall.found x hx).2 hs hchain hfull h)
      hcall.kept hbefore
    refine ih ?_ (hs.next (hcall.found m hmem) (hcall.grows.trans hothers.grows) hothers.kept)
    rw [reverse_toList_append]
    exact hchain.snoc (hcall.found m hmem).2

end Run

namespace Call

variable {rules : Rules} {P : Parser → Prop} {source : Source} {c c' : Call}

/-- A call of a parser of the grammar with sound arguments. -/
structure Sound (P : Parser → Prop) (source : Source) (c : Call) : Prop where
  member : P c.parser
  args : Run.Sound source c.frames c.toArgs

/-- **One call hands on to the next what it was given.** -/
theorem Sound.makes (hP : rules.Closed P) (hleaf : ∀ l, P (.leaf l) → l.Onward)
    (hs : c.Sound P source) (h : c.Makes rules c') : c'.Sound P source := by
  have hgoes : ∀ {n q}, P q → Run.GoesOn source (Parser.run rules n q) := fun {n _} hq =>
    Parser.run_yields (respects_onward hP hleaf source) n hq
  have hargs := hs.args
  cases h with
  | @choice a n i name ps q s frames hcalls hq =>
    have hmem : q ∈ ps := List.mem_of_getElem? hq
    refine ⟨hP.part hs.member hmem, Run.choice_sound (fun p hp => ?_) hcalls hargs⟩
    obtain ⟨q', hq', rfl⟩ := List.mem_map.mp hp
    exact hgoes (hP.part hs.member hq')
  | @sequence a a' n i key label build accepts lookup parts q frames hrefuses hcalls hq =>
    refine ⟨hP.part hs.member (Parser.mem_of_pick hq), Run.walk_sound (fun i p hp => ?_) hcalls .nil
      ⟨hargs.reads, (kept_onward source).register key hargs.onward, hargs.counted.enter hrefuses⟩⟩
    obtain ⟨q', hq', rfl⟩ := Option.map_eq_some_iff.mp hp
    exact hgoes (hP.part hs.member (Parser.mem_of_pick hq'))
  | @repetition a a' n b q frames hcalls =>
    have hq : P q := hP.part hs.member (List.mem_singleton_self q)
    exact ⟨hq, Run.cycle_sound (hgoes hq) hcalls .nil
      ⟨hargs.reads, hargs.onward, hargs.counted.grow (.refl _)⟩⟩
  | @sentence a n q frames =>
    exact ⟨hP.part hs.member (List.mem_singleton_self q),
      hargs.reads, hargs.onward, hargs.counted.grow (.refl _)⟩
  | @orEmpty a n token q frames => exact ⟨hP.part hs.member (List.mem_singleton_self q), hargs⟩
  | @rule a n h q frames hstate => exact ⟨hP.rule hs.member hstate, hargs⟩

/-- What holds of a call holds of every call nested in it, at any moment of its run. -/
theorem Sound.nested (hP : rules.Closed P) (hleaf : ∀ l, P (.leaf l) → l.Onward)
    (hs : c.Sound P source) (h : Relation.ReflTransGen (Makes rules) c c') : c'.Sound P source := by
  induction h with
  | refl => exact hs
  | tail _ hmakes ih => exact ih.makes hP hleaf hmakes

/-- The frames of a sequence are those with the identity that its key is given. -/
theorem Sound.activeOf_eq (hs : c.Sound P source) (key : Key) :
    c.activeOf key = c.active (c.session.countCall.register key).1 := by
  refine List.countP_congr fun f hf => ?_
  have hfiled := (hs.args.counted.grow (c.session.grows_register key)).filed f hf
  have hid := c.session.idOf?_register key
  have hsame : f.key = key ↔ f.id = (c.session.countCall.register key).1 := by
    constructor
    · rintro rfl
      exact Option.some.inj (hfiled.symm.trans hid)
    · intro heq
      rw [heq] at hfiled
      exact Memo.idOf?_inj hfiled hid
  simp only [hsame]

end Call

namespace Grammar

/-- **Depths count the frames at one place.** A parser of a grammar whose leaves do not go back is
called with no depths, and what is remembered, if anything, is of the same text. Then at every call
nested in that one, at any moment of the run, the depth of an identity is the number of active frames
with that identity that were entered at the offset of the call. So it is at most two more than there
are bytes left, and a sequence is refused exactly where two more frames of it than there are bytes
left are active at that offset. No call is left out of this: parts that answer as they do in the calls
that a call makes, and do anything elsewhere, lead to the answer it has. -/
theorem depths_count_frames (g : Grammar) (hleaf : ∀ l, Parser.leaf l ∈ g.members → l.Onward)
    {p : Parser} (hp : p ∈ g.members) (n : Nat) (r : Reader) {s : Session}
    (hs : s.Onward r.source) {c : Call}
    (h : Relation.ReflTransGen (Call.Makes g.rules) ⟨⟨.zero, r, s⟩, n, p, []⟩ c) :
    (∀ id, c.depths.get id = c.active id ∧ c.depths.get id ≤ c.reader.remaining + 2) ∧
    (∀ key label build accepts lookup parts,
      c.parser = .sequence key label build accepts lookup parts →
      let entered := c.session.countCall.register key
      c.activeOf key = c.active entered.1 ∧
        (Run.refuses c.depths c.reader entered.1 = true ↔
          c.activeOf key = c.reader.remaining + 2) ∧
        (c.activeOf key = c.reader.remaining + 2 → 0 < c.fuel →
          c.answer g.rules = some (.refused entered.1,
            entered.2.note (.refusal entered.1 c.parser.name c.reader.cursor)))) ∧
    ∀ k f, c.fuel = k + 1 →
      (∀ c', c.Makes g.rules c' →
        f c'.parser c'.depths c'.reader c'.session = c'.answer g.rules) →
      c.parser.runWith g.rules k f c.depths c.reader c.session = c.answer g.rules := by
  have hsound : c.Sound (· ∈ g.members) r.source := Call.Sound.nested (closed_members g) hleaf
    ⟨hp, rfl, hs, Run.counted_start r s⟩ h
  have hcounted := hsound.args.counted
  refine ⟨fun id => ⟨hcounted.count id, hcounted.bounded id⟩, ?_, ?_⟩
  · intro key label build accepts lookup parts hparser entered
    have hrefuses : Run.refuses c.depths c.reader (c.session.countCall.register key).1 = true ↔
        c.activeOf key = c.reader.remaining + 2 := by
      rw [hcounted.refuses_iff, hsound.activeOf_eq, hcounted.count]
      rfl
    refine ⟨hsound.activeOf_eq key, hrefuses, fun hfull hfuel => ?_⟩
    obtain ⟨m, hm⟩ := Nat.exists_eq_succ_of_ne_zero (Nat.ne_of_gt hfuel)
    rw [Call.answer, hm, hparser, Parser.run_sequence, Run.sequence_eq]
    simp only [hrefuses.mpr hfull, if_true]
    rfl
  · intro k f hk hparts
    obtain ⟨a, fuel, q, frames⟩ := c
    obtain rfl : fuel = k + 1 := hk
    exact Call.answer_of_makes hparts

/-- Where nothing is left to read, a sum is entered twice and refused the third time. -/
theorem emptySum_frames :
    let g := sumsOf (.leaf (.refusing 7))
    let r := Reader.ofText "" false
    (∀ l, Parser.leaf l ∈ g.members → l.Onward) ∧ Session.fresh.Onward r.source ∧
    ∃ c, Relation.ReflTransGen (Call.Makes g.rules)
        ⟨⟨.zero, r, .fresh⟩, 9, .rule ⟨0, "sum", false⟩, []⟩ c ∧
      c.frames = [⟨⟨0⟩, 0, 0⟩, ⟨⟨0⟩, 0, 0⟩] ∧ c.depths.get 0 = 2 ∧
      ∃ s, c.answer g.rules = some (.refused 0, s) := by
  intro g r
  let sum : Parser := .sequence ⟨0⟩ none (.group "SUM" none) (Draft.between 3 3) some
    [.rule ⟨0, "sum", false⟩, .terminal (.rune '+' "PLUS"), .leaf (.refusing 7)]
  -- the rule leads to the sum, and a sum that is not refused leads to the rule again
  have enter : ∀ {a n frames}, Relation.ReflTransGen (Call.Makes g.rules)
      ⟨a, n + 2, .rule ⟨0, "sum", false⟩, frames⟩
      ⟨⟨a.depths, a.reader, a.session.countCall⟩, n, sum, frames⟩ := fun {a n frames} =>
    .tail (.single (.rule rfl)) (.choice (i := 0) .here rfl)
  have again : ∀ {a : Run.Args} {n frames},
      Run.refuses a.depths a.reader (a.session.countCall.register ⟨0⟩).1 = false →
      Call.Makes g.rules ⟨a, n + 2, sum, frames⟩
        ⟨⟨a.depths.inc (a.session.countCall.register ⟨0⟩).1, a.reader,
          (a.session.countCall.register ⟨0⟩).2⟩, n + 1, .rule ⟨0, "sum", false⟩,
          ⟨⟨0⟩, (a.session.countCall.register ⟨0⟩).1, a.reader.cursor.offset⟩ :: frames⟩ :=
    fun hrefuses => .sequence hrefuses .here rfl
  have hleaf : ∀ l, Parser.leaf l ∈ g.members → l.Onward := by
    intro l hl
    have hl : l = .refusing 7 := by
      simpa [g, sumsOf, members, Rules.definitions, Parser.members, membersAll] using hl
    subst hl
    exact ⟨fun _ _ _ _ m hm => (by cases hm), fun _ _ _ hs => hs, fun _ _ s => .refl s⟩
  have hfresh : Session.fresh.Onward r.source := Session.onward_of_forgotten (fun _ _ => rfl) _
  have hstart : Relation.ReflTransGen (Call.Makes g.rules)
      ⟨⟨.zero, r, .fresh⟩, 9, .rule ⟨0, "sum", false⟩, []⟩ ⟨⟨.zero, r, _⟩, 7, sum, []⟩ := enter
  have hcalls := (((hstart.tail (again rfl)).trans enter).tail (again rfl)).trans enter
  have hrule : Parser.rule ⟨0, "sum", false⟩ ∈ g.members := by
    simp [g, sumsOf, members, Rules.definitions, Parser.members, membersAll]
  obtain ⟨hdepths, hrefused, -⟩ := depths_count_frames g hleaf hrule 9 r hfresh hcalls
  refine ⟨hleaf, hfresh, _, hcalls, rfl, (hdepths 0).1, ?_⟩
  obtain ⟨-, -, hanswer⟩ := hrefused ⟨0⟩ _ _ _ _ _ rfl
  exact ⟨_, hanswer rfl (by decide)⟩

end Grammar

end Curtail
