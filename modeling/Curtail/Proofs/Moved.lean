/-
# A parse of the same text further on

Two readers with the same text ahead stand at places some bytes apart, and the
same grammar is run from both. Nothing that a parser does depends on where its
reader stands: terminals see the text ahead, sequences count what is left of
it, and what is remembered is filed under offsets that are as far apart as the
readers are. So the two runs go the same way, and whatever they find is the
same but for its place: matches end as many bytes apart, and so do faults
happen.

Which of two matches ends first, and which of two faults is further on, is
settled by offsets, and moving all of them by the same bytes keeps their order.

Key definitions: `Reader.Moved`, `Match.Moved`, `Fault.Moved`,
`Outcome.Moved`, `Session.Moved`, `Parser.Blind`, `Run.Moves`.
Key theorems: `Fault.furthest_moved`, `Run.walk_moves`, `Run.cycle_moves`,
`Parser.run_moves`.
-/
import Curtail.Proofs.Readings
import Curtail.Proofs.Unplaced
import Curtail.Proofs.Yields

namespace Curtail

open List (Forall₂)

/-! ### What is moved -/

/-- The same text ahead, `w` bytes further on. -/
structure Reader.Moved (w : Nat) (r r' : Reader) : Prop extends r.Parallel r' where
  offset : r'.cursor.offset = r.cursor.offset + w

/-- The same fault `w` bytes further on, or without a place. -/
structure Fault.Moved (w : Nat) (f f' : Fault) : Prop extends f.Alike f' where
  place : Option.Rel (fun p p' : Position => p'.offset = p.offset + w) f.place? f'.place?

/-- A match that ends `w` bytes further on, with the same node but for places. -/
structure Match.Moved (Q : Interpreter → Prop) (w : Nat) (m m' : Match) : Prop where
  reader : m.reader.Moved w m'.reader
  node : Option.Rel (Node.Alike Q) m.node m'.node

/-- The same outcome `w` bytes further on. -/
structure Outcome.Moved (Q : Interpreter → Prop) (w : Nat) (out out' : Outcome) : Prop where
  results : Forall₂ (Match.Moved Q w) out.results.items out'.results.items
  fault : Option.Rel (Fault.Moved w) out.fault out'.fault
  curtailed : out'.curtailed = out.curtailed

/-- The same identities, and what is remembered is remembered `w` bytes further on. -/
structure Session.Moved (Q : Interpreter → Prop) (w : Nat) (s s' : Session) : Prop where
  keys : s'.memo.keys = s.memo.keys
  known : ∀ id offset, Forall₂ (Match.Moved Q w) (s.memo.known id offset).items
    (s'.memo.known id (offset + w)).items

/-- What two calls came to. -/
structure Run.Ended (Q : Interpreter → Prop) (w : Nat) (x x' : Outcome × Session) : Prop where
  outcome : x.1.Moved Q w x'.1
  session : x.2.Moved Q w x'.2

/-- Called `w` bytes further on, the run comes to the same end, or to none. -/
def Run.Moves (Q : Interpreter → Prop) (w : Nat) (p : Run) : Prop :=
  ∀ ⦃d r r' s s'⦄, r.Moved w r' → s.Moved Q w s' → Option.Rel (Run.Ended Q w) (p d r s) (p d r' s')

/-- What the parser builds itself depends on no places, with interpreters in `Q`; a leaf may look at
anything. -/
def Parser.Blind (Q : Interpreter → Prop) : Parser → Prop
  | .leaf _ => False
  | .sequence _ _ build _ _ _ => build.Blind Q
  | .repetition b _ => b.build.Blind Q
  | _ => True

variable {Q : Interpreter → Prop} {w : Nat}

theorem rel_cases {α : Type} {R : α → α → Prop} {x y : Option α} (h : Option.Rel R x y) :
    (x = none ∧ y = none) ∨ ∃ a b, x = some a ∧ y = some b ∧ R a b := by
  cases h with
  | none => exact .inl ⟨rfl, rfl⟩
  | some h => exact .inr ⟨_, _, rfl, rfl, h⟩

section Rel

variable {α β : Type} {R : α → α → Prop} {S : β → β → Prop} {x x' : Option α}

theorem exists_of_rel {a : α} (h : Option.Rel R x x') (ha : x = some a) :
    ∃ a', x' = some a' ∧ R a a' := by
  subst ha
  cases h with
  | some h => exact ⟨_, rfl, h⟩

theorem rel_bind {f f' : α → Option β} (h : Option.Rel R x x')
    (hf : ∀ a a', R a a' → Option.Rel S (f a) (f' a')) : Option.Rel S (x.bind f) (x'.bind f') := by
  cases h with
  | none => exact .none
  | some h => exact hf _ _ h

theorem rel_map {f f' : α → β} (h : Option.Rel R x x') (hf : ∀ a a', R a a' → S (f a) (f' a')) :
    Option.Rel S (x.map f) (x'.map f') := by
  cases h with
  | none => exact .none
  | some h => exact .some (hf _ _ h)

end Rel

/-! ### Readers -/

namespace Reader

variable {r r' : Reader}

theorem Moved.skip (h : r.Moved w r') (n : Nat) : (r.skip n).Moved w (r'.skip n) where
  toParallel := h.toParallel.skip n
  offset := by
    rw [offset_skip, offset_skip, h.rest, h.offset]
    omega

theorem Moved.token (h : r.Moved w r') : r.token.Moved w r'.token := by
  rw [token_eq_skip, token_eq_skip, h.toParallel.toToken]
  exact h.skip _

end Reader

/-! ### Matches in order -/

namespace Ascending

variable {α : Type} {key : α → Nat} {R : α → α → Prop}

theorem forall₂_takeWhile {p q : α → Bool} (hpq : ∀ a b, R a b → q b = p a) {xs ys : List α}
    (h : Forall₂ R xs ys) : Forall₂ R (xs.takeWhile p) (ys.takeWhile q) := by
  induction h with
  | nil => exact .nil
  | @cons a b xs ys hab _ ih =>
    rw [List.takeWhile_cons, List.takeWhile_cons, hpq a b hab]
    split
    · exact .cons hab ih
    · exact .nil

theorem forall₂_dropWhile {p q : α → Bool} (hpq : ∀ a b, R a b → q b = p a) {xs ys : List α}
    (h : Forall₂ R xs ys) : Forall₂ R (xs.dropWhile p) (ys.dropWhile q) := by
  induction h with
  | nil => exact .nil
  | @cons a b xs ys hab hs ih =>
    rw [List.dropWhile_cons, List.dropWhile_cons, hpq a b hab]
    split
    · exact ih
    · exact .cons hab hs

theorem forall₂_find? {p q : α → Bool} (hpq : ∀ a b, R a b → q b = p a) {xs ys : List α}
    (h : Forall₂ R xs ys) : Option.Rel R (xs.find? p) (ys.find? q) := by
  induction h with
  | nil => exact .none
  | @cons a b xs ys hab _ ih =>
    rw [List.find?_cons, List.find?_cons, hpq a b hab]
    split
    · exact .some hab
    · exact ih

theorem forall₂_isEmpty {xs ys : List α} (h : Forall₂ R xs ys) : ys.isEmpty = xs.isEmpty := by
  cases h <;> rfl

/-- Joining lists whose keys are as far apart keeps them in step. -/
theorem forall₂_merge (hkey : ∀ a b, R a b → key b = key a + w) {xs xs' ys ys' : List α}
    (hx : Forall₂ R xs xs') (hy : Forall₂ R ys ys') :
    Forall₂ R (merge key xs ys) (merge key xs' ys') := by
  induction hx generalizing ys ys' with
  | nil => exact hy
  | @cons a b xs xs' hab _ ih =>
    have hlt : ∀ c d, R c d → decide (key d < key b) = decide (key c < key a) := by
      intro c d hcd
      rw [hkey a b hab, hkey c d hcd, decide_eq_decide]
      omega
    have hle : ∀ c d, R c d → decide (key d ≤ key b) = decide (key c ≤ key a) := by
      intro c d hcd
      rw [hkey a b hab, hkey c d hcd, decide_eq_decide]
      omega
    exact List.rel_append (forall₂_takeWhile hlt hy) (.cons hab (ih (forall₂_dropWhile hle hy)))

end Ascending

theorem Match.Moved.stopOffset {m m' : Match} (h : m.Moved Q w m') :
    m'.stopOffset = m.stopOffset + w := h.reader.offset

theorem Match.Moved.nodes {m m' : Match} (h : m.Moved Q w m') {nodes nodes' : List Node}
    (hnodes : Forall₂ (Node.Alike Q) nodes nodes') :
    Forall₂ (Node.Alike Q) (m.node.toList ++ nodes) (m'.node.toList ++ nodes') := by
  obtain ⟨node, r⟩ := m
  obtain ⟨node', r'⟩ := m'
  cases h.node with
  | none => exact hnodes
  | some hnode => exact .cons hnode hnodes

/-! ### Faults and outcomes -/

namespace Fault

theorem Moved.depth_le {f f' g g' : Fault} (hf : f.Moved w f') (hg : g.Moved w g') :
    f'.depth ≤ g'.depth ↔ f.depth ≤ g.depth := by
  unfold Fault.depth
  rcases rel_cases hf.place with ⟨hp, hp'⟩ | ⟨p, p', hp, hp', hoffset⟩ <;>
    rcases rel_cases hg.place with ⟨hq, hq'⟩ | ⟨q, q', hq, hq', hoffset'⟩ <;>
    simp only [hp, hp', hq, hq', Option.elim_none, Option.elim_some] <;> omega

/-- The fault further on stays the one further on. -/
theorem furthest_moved {a a' b b' : Option Fault} (ha : Option.Rel (Moved w) a a')
    (hb : Option.Rel (Moved w) b b') : Option.Rel (Moved w) (furthest a b) (furthest a' b') := by
  cases ha with
  | none => exact hb
  | some hf =>
    cases hb with
    | none => exact .some hf
    | some hg =>
      simp only [furthest, hf.depth_le hg]
      split
      · exact .some hg
      · exact .some hf

theorem moved_parse {p p' : Position} (h : p'.offset = p.offset + w) (message : String) :
    (parse p message).Moved w (parse p' message) where
  code := rfl
  message := rfl
  place := .some h

theorem moved_trailing {p p' : Position} (h : p'.offset = p.offset + w) :
    (trailing p).Moved w (trailing p') where
  code := rfl
  message := rfl
  place := .some h

theorem moved_grammar (flaw : Flaw) : (grammar flaw).Moved w (grammar flaw) where
  code := rfl
  message := rfl
  place := .none

end Fault

namespace Outcome.Moved

variable {out out' rest rest' : Outcome}

theorem empty : Outcome.Moved Q w ∅ ∅ := ⟨.nil, .none, rfl⟩

theorem matched {m m' : Match} (h : m.Moved Q w m') :
    (Outcome.matched m).Moved Q w (Outcome.matched m') := ⟨.cons h .nil, .none, rfl⟩

theorem failed {f f' : Fault} (h : f.Moved w f') :
    (Outcome.failed f).Moved Q w (Outcome.failed f') := ⟨.nil, .some h, rfl⟩

theorem refused (id : Nat) : (Outcome.refused id).Moved Q w (Outcome.refused id) :=
  ⟨.nil, .none, rfl⟩

theorem reports {fault fault' : Option Fault} (h : Option.Rel (Fault.Moved w) fault fault')
    {cuts cuts' : IdSet} (hcuts : cuts' = cuts) :
    (Outcome.reports fault cuts).Moved Q w (Outcome.reports fault' cuts') := ⟨.nil, h, hcuts⟩

theorem append (h : out.Moved Q w out') (hrest : rest.Moved Q w rest') :
    (out ++ rest).Moved Q w (out' ++ rest') where
  results := Ascending.forall₂_merge (fun _ _ hm => hm.stopOffset) h.results hrest.results
  fault := Fault.furthest_moved h.fault hrest.fault
  curtailed := congrArg₂ (· ++ ·) h.curtailed hrest.curtailed

theorem isMatch (h : out.Moved Q w out') : out'.isMatch = out.isMatch := by
  unfold Outcome.isMatch Ascending.isEmpty
  rw [Ascending.forall₂_isEmpty h.results]

end Outcome.Moved

/-- What a terminal makes of the text is the same further on. -/
theorem Terminal.read_moved (t : Terminal) {r r' : Reader} (h : r.Moved w r') :
    (t.read r).Moved Q w (t.read r') := by
  obtain ⟨x, hx⟩ := t.exists_reading r
  rw [hx r (.refl r), hx r' h.toParallel]
  cases x with
  | nothing => exact .empty
  | malformed message => exact .failed (Fault.moved_parse h.token.offset message)
  | here => exact .matched ⟨h, .none⟩
  | token name value length => exact .matched ⟨h.token.skip length, .some .leaf⟩
  | literal name value length => exact .matched ⟨h.skip length, .some .leaf⟩

/-! ### Sessions -/

namespace Session.Moved

variable {s s' : Session}

theorem countCall (h : s.Moved Q w s') : s.countCall.Moved Q w s'.countCall := ⟨h.keys, h.known⟩

theorem note (h : s.Moved Q w s') (e e' : Event) : (s.note e).Moved Q w (s'.note e') :=
  ⟨h.keys, h.known⟩

theorem register (h : s.Moved Q w s') (key : Key) :
    (s'.register key).1 = (s.register key).1 ∧
      (s.register key).2.Moved Q w (s'.register key).2 := by
  refine ⟨?_, ?_, fun id offset => ?_⟩
  · simp only [Session.register, Memo.register, h.keys]
    split <;> rfl
  · simp only [Session.register, Memo.register, h.keys]
    split <;> simp only [h.keys]
  · rw [known_register, known_register]
    exact h.known id offset

/-- New matches join those remembered as far apart. -/
theorem grow (h : s.Moved Q w s') (id offset : Nat) {found found' : Matches}
    (hfound : Forall₂ (Match.Moved Q w) found.items found'.items) :
    Forall₂ (Match.Moved Q w) (s.grow id offset found).1.items
        (s'.grow id (offset + w) found').1.items ∧
      (s.grow id offset found).2.Moved Q w (s'.grow id (offset + w) found').2 := by
  have hall : Forall₂ (Match.Moved Q w) (found ++ s.memo.known id offset).items
      (found' ++ s'.memo.known id (offset + w)).items :=
    Ascending.forall₂_merge (fun _ _ hm => hm.stopOffset) hfound (h.known id offset)
  refine ⟨hall, h.keys, fun id' offset' => ?_⟩
  rw [known_grow, known_grow]
  by_cases heq : id = id' ∧ offset = offset'
  · rw [if_pos heq, if_pos ⟨heq.1, congrArg (· + w) heq.2⟩]
    exact hall
  · rw [if_neg heq, if_neg fun ⟨hid, hoffset⟩ => heq ⟨hid, Nat.add_right_cancel hoffset⟩]
    exact h.known id' offset'

/-- Sessions that remember nothing, with the same identities. -/
theorem of_forgotten (hkeys : s'.memo.keys = s.memo.keys)
    (h : ∀ id offset, s.memo.known id offset = ∅) (h' : ∀ id offset, s'.memo.known id offset = ∅) :
    s.Moved Q w s' := by
  refine ⟨hkeys, fun id offset => ?_⟩
  rw [h, h']
  exact .nil

end Session.Moved

/-! ### Combinators -/

namespace Run

theorem depthsAfter_moved {r r' next next' : Reader} (h : r.Moved w r') (hnext : next.Moved w next')
    (d : Tally) : depthsAfter d r' next' = depthsAfter d r next := by
  unfold depthsAfter
  rw [h.offset, hnext.offset]
  simp only [Nat.add_lt_add_iff_right]

theorem gather_moves {f f' : Match → Session → Option (Outcome × Session)} {ms ms' : List Match}
    (hms : Forall₂ (Match.Moved Q w) ms ms')
    (hf : ∀ ⦃m m'⦄, m.Moved Q w m' → ∀ ⦃s s'⦄, s.Moved Q w s' →
      Option.Rel (Ended Q w) (f m s) (f' m' s')) :
    ∀ {s s' : Session}, s.Moved Q w s' →
      Option.Rel (Ended Q w) (gather f ms s) (gather f' ms' s') := by
  induction hms with
  | nil => exact fun hs => .some ⟨.empty, hs⟩
  | @cons m m' ms ms' hm _ ih =>
    intro s s' hs
    rw [gather_cons, gather_cons]
    exact rel_bind (hf hm hs) fun x x' hX => rel_map (ih hX.session) fun y y' hY =>
      ⟨hX.outcome.append hY.outcome, hY.session⟩

theorem choice_moves : ∀ {ps : List Run}, (∀ p ∈ ps, Moves Q w p) → Moves Q w (choice ps)
  | [], _, _, _, _, _, _, _, hs => .some ⟨.empty, hs⟩
  | p :: ps, hall, d, r, r', s, s', hr, hs => by
    have htail : Moves Q w (choice ps) := choice_moves fun q hq => hall q (List.mem_cons_of_mem p hq)
    rw [choice_cons, choice_cons]
    refine rel_bind (hall p List.mem_cons_self hr hs.countCall) fun x x' hX => ?_
    rw [hX.outcome.isMatch]
    split
    · exact .some hX
    · exact rel_map (htail hr hX.session) fun y y' hY =>
        ⟨hX.outcome.append hY.outcome, hY.session⟩

section Walks

variable {steps : Steps} {r r' : Reader} {nodes nodes' : List Node}

theorem finishIf_moved (hbuild : steps.build.Blind Q) (hr : r.Moved w r') (k : Nat)
    (hnodes : Forall₂ (Node.Alike Q) nodes nodes') :
    (steps.finishIf r k nodes).Moved Q w (steps.finishIf r' k nodes') := by
  unfold Steps.finishIf
  split
  · exact .matched ⟨hr, hbuild (List.rel_reverse hnodes)⟩
  · exact .empty

theorem faultAt_moved (hr : r.Moved w r') (k : Nat) {out out' : Outcome}
    (hout : out.Moved Q w out') :
    Option.Rel (Fault.Moved w) (steps.faultAt r k out) (steps.faultAt r' k out') := by
  have hnone : out'.fault.isNone = out.fault.isNone := by
    rcases rel_cases hout.fault with ⟨h, h'⟩ | ⟨f, f', h, h', -⟩ <;> simp only [h, h']
    rfl
  unfold Steps.faultAt
  rw [hout.isMatch, hnone, hout.curtailed]
  split
  · exact .some (Fault.moved_parse hr.token.offset _)
  · exact hout.fault

/-- A walk goes the same way further on: the induction is on its fuel. -/
theorem walk_moves (hbuild : steps.build.Blind Q)
    (hpart : ∀ i p, steps.part i = some p → Moves Q w p) :
    ∀ {n : Nat} {d : Tally} {r r' : Reader} {k : Nat} {nodes nodes' : List Node} {s s' : Session},
      r.Moved w r' → Forall₂ (Node.Alike Q) nodes nodes' → s.Moved Q w s' →
      Option.Rel (Ended Q w) (walk steps n d r k nodes s) (walk steps n d r' k nodes' s')
  | 0, _, _, _, _, _, _, _, _, _, _, _ => .none
  | n + 1, d, r, r', k, nodes, nodes', s, s', hr, hnodes, hs => by
    have hend := finishIf_moved hbuild hr k hnodes
    cases hk : steps.part k with
    | none =>
      rw [walk_succ, walk_succ, hk]
      exact .some ⟨hend, hs⟩
    | some p =>
      have hon : ∀ ⦃m m'⦄, m.Moved Q w m' → ∀ ⦃s s'⦄, s.Moved Q w s' →
          Option.Rel (Ended Q w) (walkOn steps n d r k nodes m s)
            (walkOn steps n d r' k nodes' m' s') := by
        intro m m' hm s s' hs
        unfold walkOn
        -- Both runs read on or both stay, so depths are reset in both or in neither.
        rw [depthsAfter_moved hr hm.reader]
        exact walk_moves hbuild hpart hm.reader (hm.nodes hnodes) hs
      rw [walk_succ_of_part hk, walk_succ_of_part hk]
      refine rel_bind (hpart k p hk hr hs) fun x x' hX => ?_
      have hreports : (Outcome.reports (steps.faultAt r k x.1) x.1.curtailed).Moved Q w
          (.reports (steps.faultAt r' k x'.1) x'.1.curtailed) :=
        .reports (faultAt_moved hr k hX.outcome) hX.outcome.curtailed
      exact rel_map (gather_moves hX.outcome.results hon hX.session) fun y y' hY =>
        ⟨(hreports.append hY.outcome).append hend, hY.session⟩

theorem refuses_moved (hr : r.Moved w r') (d : Tally) (id : Nat) :
    refuses d r' id = refuses d r id := by
  unfold refuses
  rw [hr.remaining]

theorem sequence_moves {n : Nat} {key : Key} {name : String} (hbuild : steps.build.Blind Q)
    (hpart : ∀ i p, steps.part i = some p → Moves Q w p) :
    Moves Q w (sequence n key name steps) := by
  intro d r r' s s' hr hs
  obtain ⟨hid, hs₀⟩ := hs.countCall.register key
  simp only [sequence_eq, hid, refuses_moved hr, hr.offset]
  split
  · exact .some ⟨.refused _, hs₀.note _ _⟩
  · -- What was found at the reader is filed under its offset, `w` bytes further on in the other run.
    refine rel_map (walk_moves hbuild hpart hr .nil hs₀) fun x x' hX => ?_
    obtain ⟨hall, hgrown⟩ := hX.session.grow (s.countCall.register key).1 r.cursor.offset
      hX.outcome.results
    exact ⟨⟨hall, hX.outcome.fault, hX.outcome.curtailed⟩, hgrown⟩

end Walks

section Cycles

variable {b : Bounds} {p : Run}

theorem finish_moved (hbuild : b.build.Blind Q) {r r' : Reader} (hr : r.Moved w r')
    {nodes nodes' : List Node} (hnodes : Forall₂ (Node.Alike Q) nodes nodes') (count : Nat) :
    (b.finish r nodes count).Moved Q w (b.finish r' nodes' count) := by
  unfold Bounds.finish
  split
  · exact .empty
  · refine .matched ⟨hr, ?_⟩
    simp only
    split
    · exact .none
    · exact hbuild (List.rel_reverse hnodes)

theorem cycle_moves (hbuild : b.build.Blind Q) (hp : Moves Q w p) :
    ∀ {n : Nat} {d : Tally} {r r' : Reader} {nodes nodes' : List Node} {count : Nat}
      {stalled : Bool} {s s' : Session}, r.Moved w r' → Forall₂ (Node.Alike Q) nodes nodes' →
      s.Moved Q w s' → Option.Rel (Ended Q w) (cycle b p n d r nodes count stalled s)
        (cycle b p n d r' nodes' count stalled s')
  | 0, _, _, _, _, _, _, _, _, _, _, _, _ => .none
  | n + 1, d, r, r', nodes, nodes', count, stalled, s, s', hr, hnodes, hs => by
    have hon : ∀ ⦃m m'⦄, m.Moved Q w m' → ∀ ⦃s s'⦄, s.Moved Q w s' →
        Option.Rel (Ended Q w) (cycleOn b p n d r nodes count stalled m s)
          (cycleOn b p n d r' nodes' count stalled m' s') := by
      intro m m' hm s s' hs
      simp only [cycleOn, hr.offset, hm.stopOffset, Nat.add_lt_add_iff_right]
      split
      · exact cycle_moves hbuild hp hm.reader (hm.nodes hnodes) hs
      · split
        · exact .some ⟨finish_moved hbuild hm.reader (hm.nodes hnodes) _, hs⟩
        · exact cycle_moves hbuild hp hm.reader (hm.nodes hnodes) hs
    rw [cycle_succ_eq, cycle_succ_eq]
    split
    · exact .some ⟨finish_moved hbuild hr hnodes count, hs⟩
    · refine rel_bind (hp hr hs) fun x x' hX => ?_
      have hreports := Outcome.Moved.reports (Q := Q) hX.outcome.fault hX.outcome.curtailed
      rw [hX.outcome.isMatch]
      split
      · exact rel_map (gather_moves hX.outcome.results hon hX.session) fun y y' hY =>
          ⟨hreports.append hY.outcome, hY.session⟩
      · exact .some ⟨hreports.append (finish_moved hbuild hr hnodes count), hX.session⟩

end Cycles

theorem trailing?_moved {results results' : Matches}
    (h : Forall₂ (Match.Moved Q w) results.items results'.items) :
    Option.Rel (fun p p' : Position => p'.offset = p.offset + w) (trailing? results)
      (trailing? results') := by
  have hopen : Forall₂ (Match.Moved Q w) (results.items.filter (!·.reader.atEnd))
      (results'.items.filter (!·.reader.atEnd)) :=
    List.rel_filter (fun m m' hm => by simp only [hm.reader.atEnd]) h
  exact rel_map (Builder.rel_getLast? hopen) fun m m' hm => hm.reader.token.offset

theorem atEnd_moved {out out' : Outcome} (h : out.Moved Q w out') :
    (atEnd out).Moved Q w (atEnd out') := by
  have hkept : Forall₂ (Match.Moved Q w) (complete out.results).items
      (complete out'.results).items :=
    List.rel_filter (fun m m' hm => by simp only [hm.reader.atEnd]) h.results
  have hempty : (complete out'.results).isEmpty = (complete out.results).isEmpty :=
    Ascending.forall₂_isEmpty hkept
  refine ⟨hkept, ?_, h.curtailed⟩
  simp only [atEnd, hempty]
  split
  · rcases rel_cases (trailing?_moved h.results) with ⟨hx, hx'⟩ | ⟨p, p', hx, hx', hoffset⟩
    · simp only [hx, hx']
      exact h.fault
    · simp only [hx, hx']
      exact Fault.furthest_moved (.some (Fault.moved_trailing hoffset)) h.fault
  · exact h.fault

theorem sentence_moves {p : Run} (hp : Moves Q w p) : Moves Q w (sentence p) := by
  intro d r r' s s' hr hs
  rw [sentence_eq, sentence_eq]
  exact rel_map (hp hr hs.countCall) fun x x' hX => ⟨atEnd_moved hX.outcome, hX.session⟩

theorem withEmpty_moved (token : String) {r r' : Reader} (hr : r.Moved w r') {out out' : Outcome}
    (h : out.Moved Q w out') : (withEmpty token r out).Moved Q w (withEmpty token r' out') := by
  have hnode : (Node.emptyGroup token r.cursor none).Alike Q (.emptyGroup token r'.cursor none) :=
    .branch nofun .nil
  unfold withEmpty
  rw [h.isMatch]
  split
  · exact h
  · exact ⟨Ascending.forall₂_merge (fun _ _ hm => hm.stopOffset) h.results
      (.cons ⟨hr, .some hnode⟩ .nil), h.fault, h.curtailed⟩

theorem orEmpty_moves {token : String} {p : Run} (hp : Moves Q w p) :
    Moves Q w (orEmpty token p) := by
  intro d r r' s s' hr hs
  rw [orEmpty_eq, orEmpty_eq]
  exact rel_map (hp hr hs) fun x x' hX => ⟨withEmpty_moved token hr hX.outcome, hX.session⟩

end Run

/-- **Moving.** A parser that builds nothing from places comes to the same end further on. -/
theorem Parser.run_moves {rules : Rules} {P : Parser → Prop} (hclosed : rules.Closed P)
    (hblind : ∀ p, P p → p.Blind Q) (n : Nat) : ∀ {p : Parser}, P p → Run.Moves Q w (p.run rules n) := by
  induction n with
  | zero => exact fun _ _ _ _ _ _ _ _ => .none
  | succ n ih =>
    intro p hp
    cases p with
    | terminal t => exact fun _ _ _ _ _ hr hs => .some ⟨t.read_moved hr, hs.countCall⟩
    | leaf l => exact (hblind _ hp).elim
    | choice name ps =>
      rw [run_choice]
      refine Run.choice_moves fun f hf => ?_
      obtain ⟨q, hq, rfl⟩ := List.mem_map.mp hf
      exact ih (hclosed.part hp hq)
    | sequence key label build accepts lookup parts =>
      rw [run_sequence]
      refine Run.sequence_moves (hblind _ hp) fun i f hf => ?_
      obtain ⟨q, hq, rfl⟩ := Option.map_eq_some_iff.mp hf
      exact ih (hclosed.part hp (mem_of_pick hq))
    | repetition b q =>
      have hq := ih (hclosed.part hp (List.mem_singleton.mpr rfl))
      exact fun _ _ _ _ _ hr hs => Run.cycle_moves (hblind _ hp) hq hr .nil hs.countCall
    | sentence q => exact Run.sentence_moves (ih (hclosed.part hp (List.mem_singleton.mpr rfl)))
    | orEmpty token q => exact Run.orEmpty_moves (ih (hclosed.part hp (List.mem_singleton.mpr rfl)))
    | rule h =>
      rw [run_rule]
      cases hstate : rules.state h.id with
      | defined q => exact ih (hclosed.rule hp hstate)
      | undefined => exact fun _ _ _ _ _ _ hs => .some ⟨.failed (Fault.moved_grammar _), hs⟩
      | dropped => exact fun _ _ _ _ _ _ hs => .some ⟨.failed (Fault.moved_grammar _), hs⟩

end Curtail
