/-
# What happened before does not matter

A parse forgets all matches before it starts, but not the identities that were
handed out. So two parses of one text from different sessions use different
identities for the same sequences, in a different order, and everything filed
under an identity stands elsewhere: depths, remembered matches, refusals. Under
the keys of the sequences it stands in the same place. The two parses run side
by side, related key by key.

Key definitions: `Memo.knownBy`, `Session.Twin`, `Lockstep.reuse`,
`SameAnswer`.
Key theorems: `Lockstep.reuse_follows`, `Grammar.history_free`.
-/
import Curtail.Proofs.Lockstep
import Curtail.Proofs.Termination

namespace Curtail

namespace Memo

/-- The matches remembered for a key at an offset. -/
def knownBy (memo : Memo) (key : Key) (offset : Nat) : Matches :=
  (memo.idOf? key).elim ∅ (memo.known · offset)

/-- Nothing is remembered under identities that were not handed out yet. -/
def Dense (memo : Memo) : Prop := ∀ id, memo.keys.length ≤ id → ∀ offset, memo.known id offset = ∅

variable {memo memo' : Memo} {key key' : Key} {id offset : Nat}

theorem knownBy_of_idOf? (h : memo.idOf? key = some id) (offset : Nat) :
    memo.knownBy key offset = memo.known id offset := by
  rw [knownBy, h]
  rfl

/-- Further keys change nothing that is remembered for a key. -/
theorem knownBy_of_prefix (hm : memo.keys <+: memo'.keys) (hdense : memo.Dense)
    (hknown : ∀ id offset, memo'.known id offset = memo.known id offset) (key : Key)
    (offset : Nat) : memo'.knownBy key offset = memo.knownBy key offset := by
  cases hnew : memo'.idOf? key with
  | none =>
    rw [knownBy, knownBy, hnew, idOf?_eq_none_of_prefix hm hnew]
    rfl
  | some id =>
    rw [knownBy_of_idOf? hnew, hknown]
    rcases idOf?_of_prefix hm hnew with hold | ⟨hold, hge⟩
    · rw [knownBy_of_idOf? hold]
    · rw [hdense id hge, knownBy, hold]
      rfl

theorem Dense.of_prefix (hdense : memo.Dense) (hm : memo.keys <+: memo'.keys)
    (hknown : ∀ id offset, memo'.known id offset = memo.known id offset) : memo'.Dense :=
  fun id hge offset => by rw [hknown, hdense id (Nat.le_trans hm.length_le hge)]

/-- What is recalled after growing: all matches under the key they were found by. -/
theorem knownBy_grow (hid : memo.idOf? key = some id) (found : Matches) (key' : Key)
    (offset' : Nat) : (memo.grow id offset found).2.knownBy key' offset' =
      if key = key' ∧ offset = offset' then found ++ memo.knownBy key offset
      else memo.knownBy key' offset' := by
  have hkeys : ∀ k, (memo.grow id offset found).2.idOf? k = memo.idOf? k := fun _ => rfl
  by_cases hkey : key = key'
  · subst hkey
    rw [knownBy_of_idOf? ((hkeys key).trans hid), known_grow, knownBy_of_idOf? hid,
      knownBy_of_idOf? hid]
    simp only [true_and]
  · rw [if_neg fun h => hkey h.1, knownBy, knownBy, hkeys]
    cases hid' : memo.idOf? key' with
    | none => rfl
    | some id' =>
      have hne : ¬ (id = id' ∧ offset = offset') := by
        rintro ⟨rfl, -⟩
        exact hkey (idOf?_inj hid hid')
      simp only [Option.elim_some, known_grow, if_neg hne]

theorem Dense.grow (hdense : memo.Dense) (hid : memo.idOf? key = some id) (found : Matches) :
    (memo.grow id offset found).2.Dense := by
  intro id' hge offset'
  rw [known_grow, if_neg]
  · exact hdense id' hge offset'
  · rintro ⟨rfl, -⟩
    exact absurd (idOf?_lt hid) (Nat.not_lt.mpr hge)

end Memo

/-! ### Two sessions under one set of keys -/

/-- Sessions that remember the same under every key, after as many calls since their counts were
`calls` and `calls'`. -/
structure Session.Twin (calls calls' : Nat) (s s' : Session) : Prop where
  called : ∃ k, s.memo.calls = calls + k ∧ s'.memo.calls = calls' + k
  dense : s.memo.Dense
  dense' : s'.memo.Dense
  knownBy : ∀ key offset, s'.memo.knownBy key offset = s.memo.knownBy key offset

/-- Depths that are the same under every key; identities not handed out yet count for nothing. -/
structure Tally.Twin (d : Tally) (s : Session) (d' : Tally) (s' : Session) : Prop where
  depth : ∀ key, s'.memo.depth d' key = s.memo.depth d key
  unused : ∀ id, s.memo.keys.length ≤ id → d.get id = 0
  unused' : ∀ id, s'.memo.keys.length ≤ id → d'.get id = 0

namespace Session.Twin

variable {calls calls' : Nat} {s s' : Session}

theorem symm (h : Twin calls calls' s s') : Twin calls' calls s' s where
  called := h.called.imp fun _ hk => ⟨hk.2, hk.1⟩
  dense := h.dense'
  dense' := h.dense
  knownBy key offset := (h.knownBy key offset).symm

theorem countCall (h : Twin calls calls' s s') : Twin calls calls' s.countCall s'.countCall where
  called := by
    obtain ⟨k, hk, hk'⟩ := h.called
    exact ⟨k + 1, congrArg (· + 1) hk, congrArg (· + 1) hk'⟩
  dense := h.dense
  dense' := h.dense'
  knownBy := h.knownBy

theorem note (h : Twin calls calls' s s') (e e' : Event) :
    Twin calls calls' (s.note e) (s'.note e') :=
  ⟨h.called, h.dense, h.dense', h.knownBy⟩

theorem register (h : Twin calls calls' s s') (key : Key) :
    Twin calls calls' (s.register key).2 (s'.register key).2 where
  called := by
    rw [calls_register, calls_register]
    exact h.called
  dense := h.dense.of_prefix (Memo.keys_register _ key) (s.known_register key)
  dense' := h.dense'.of_prefix (Memo.keys_register _ key) (s'.known_register key)
  knownBy key' offset := by
    have hold := Memo.knownBy_of_prefix (Memo.keys_register s.memo key) h.dense
      (s.known_register key) key' offset
    have hold' := Memo.knownBy_of_prefix (Memo.keys_register s'.memo key) h.dense'
      (s'.known_register key) key' offset
    exact hold'.trans ((h.knownBy key' offset).trans hold.symm)

theorem grow (h : Twin calls calls' s s') {key : Key} {id id' : Nat}
    (hid : s.memo.idOf? key = some id) (hid' : s'.memo.idOf? key = some id') (offset : Nat)
    (found : Matches) :
    (s'.grow id' offset found).1 = (s.grow id offset found).1 ∧
      Twin calls calls' (s.grow id offset found).2 (s'.grow id' offset found).2 := by
  constructor
  · show found ++ s'.memo.known id' offset = found ++ s.memo.known id offset
    rw [← Memo.knownBy_of_idOf? hid, ← Memo.knownBy_of_idOf? hid', h.knownBy]
  · refine ⟨h.called, h.dense.grow hid found, h.dense'.grow hid' found, fun key' offset' => ?_⟩
    show (s'.memo.grow id' offset found).2.knownBy key' offset' =
      (s.memo.grow id offset found).2.knownBy key' offset'
    rw [Memo.knownBy_grow hid, Memo.knownBy_grow hid', h.knownBy, h.knownBy]

/-- Sessions in which all matches are forgotten. -/
theorem of_forgotten (s s' : Session) : Twin s.memo.calls s'.memo.calls s.forget s'.forget where
  called := ⟨0, rfl, rfl⟩
  dense _ _ offset := s.known_forget _ offset
  dense' _ _ offset := s'.known_forget _ offset
  knownBy key offset := by
    simp only [Memo.knownBy, known_forget]
    cases s.forget.memo.idOf? key <;> cases s'.forget.memo.idOf? key <;> rfl

end Session.Twin

namespace Tally.Twin

variable {d d' : Tally} {s s' : Session}

theorem symm (h : Twin d s d' s') : Twin d' s' d s :=
  ⟨fun key => (h.depth key).symm, h.unused', h.unused⟩

theorem grow (h : Twin d s d' s') {t t' : Session} (hs : s.Grows t) (hs' : s'.Grows t') :
    Twin d t d' t' where
  depth key := by
    rw [Memo.depth_of_prefix hs h.unused, Memo.depth_of_prefix hs' h.unused', h.depth]
  unused id hge := h.unused id (Nat.le_trans hs.length_le hge)
  unused' id hge := h.unused' id (Nat.le_trans hs'.length_le hge)

theorem zero (s s' : Session) : Twin .zero s .zero s' where
  depth key := by
    simp only [Memo.depth]
    cases s.memo.idOf? key <;> cases s'.memo.idOf? key <;> rfl
  unused _ _ := rfl
  unused' _ _ := rfl

theorem unused_inc {key : Key} {id : Nat} (hid : s.memo.idOf? key = some id)
    (h : ∀ id, s.memo.keys.length ≤ id → d.get id = 0) {id' : Nat}
    (hge : s.memo.keys.length ≤ id') : (d.inc id).get id' = 0 := by
  rw [get_inc, if_neg]
  · exact h id' hge
  · rintro rfl
    exact absurd (Memo.idOf?_lt hid) (Nat.not_lt.mpr hge)

/-- Entering the sequence with a key on both sides. -/
theorem inc (h : Twin d s d' s') {key : Key} {id id' : Nat} (hid : s.memo.idOf? key = some id)
    (hid' : s'.memo.idOf? key = some id') : Twin (d.inc id) s (d'.inc id') s' where
  depth key' := by
    by_cases heq : key = key'
    · subst heq
      rw [Memo.depth_inc_self hid, Memo.depth_inc_self hid', h.depth]
    · rw [Memo.depth_inc_ne hid heq, Memo.depth_inc_ne hid' heq, h.depth]
  unused _ hge := unused_inc hid h.unused hge
  unused' _ hge := unused_inc hid' h.unused' hge

/-- Both sides refuse, or neither does. -/
theorem refuses (h : Twin d s d' s') {key : Key} {id id' : Nat} (hid : s.memo.idOf? key = some id)
    (hid' : s'.memo.idOf? key = some id') (r : Reader) :
    Run.refuses d' r id' = Run.refuses d r id := by
  unfold Run.refuses
  rw [← Memo.depth_of_idOf? hid, ← Memo.depth_of_idOf? hid', h.depth]

end Tally.Twin

/-! ### The two runs -/

theorem isEmpty_append (a b : IdSet) : (a ++ b).isEmpty = (a.isEmpty && b.isEmpty) := by
  obtain ⟨xs, hxs⟩ := a
  obtain ⟨ys, hys⟩ := b
  show (Ascending.merge _ xs ys).isEmpty = (xs.isEmpty && ys.isEmpty)
  cases xs with
  | nil => rfl
  | cons x xs => simp [Ascending.merge]

namespace Lockstep

/-- Two runs that differ in their identities. -/
def reuse (calls calls' : Nat) : Lockstep where
  At _ := True
  Leads _ _ := True
  Sessions := Session.Twin calls calls'
  Depths _ _ := Tally.Twin
  Cuts a a' := a'.isEmpty = a.isEmpty
  leads_refl _ := trivial
  leads_trans _ _ := trivial
  countCall h := h.countCall
  grow h hs hs' := h.grow hs hs'
  next {n r d s d' s' r'} h _ _ _ := by
    unfold Run.depthsAfter
    split
    · exact .zero s s'
    · exact h
  lower h := h
  cuts_empty := rfl
  cuts_append {a a' b b'} ha hb := by rw [isEmpty_append, isEmpty_append, ha, hb]
  cuts_isEmpty h := h

variable {rules : Rules} {P : Parser → Prop} {calls calls' : Nat}

theorem reuse_outcomes (r : Reader) (out : Outcome) :
    (reuse calls calls').Outcomes r out out :=
  ⟨rfl, rfl, rfl, fun _ _ => ⟨trivial, trivial⟩⟩

/-- A sequence does the same under both identities of its key. -/
theorem reuse_sequence {n : Nat} {steps : Run.Steps}
    (hsteps : (reuse calls calls').Steps n steps steps) (key : Key) (name : String) :
    (reuse calls calls').Follows n (Run.sequence n key name steps)
      (Run.sequence n key name steps) := by
  intro d r s d' s' out t hr hd hs h
  have hid := s.idOf?_register key
  have hid' := s'.idOf?_register key
  have hgrows := s.grows_register key
  have hgrows' := s'.grows_register key
  have hregister := hs.countCall.register key
  have hdepths := hd.grow hgrows hgrows'
  have hrefuses := hdepths.refuses hid hid' r
  generalize hx : s.countCall.register key = x at *
  generalize hx' : s'.countCall.register key = x' at *
  obtain ⟨id, s₁⟩ := x
  obtain ⟨id', s₁'⟩ := x'
  rcases Run.sequence_eq_some.mp h with ⟨hrefused, heq⟩ | ⟨hentered, found, s₂, hwalk, heq⟩
  · rw [hx] at hrefused heq
    cases heq
    refine ⟨_, _, Run.sequence_eq_some.mpr (.inl ⟨?_, rfl⟩), ?_⟩
    · rw [hx']
      exact hrefuses.trans hrefused
    · rw [hx']
      exact ⟨hgrows, hgrows', hregister.note _ _, rfl, rfl, rfl, fun m hm => by cases hm⟩
  · rw [hx] at hentered hwalk heq
    cases heq
    obtain ⟨found', s₂', hwalk', hafter⟩ :=
      walk_follows hsteps hr (hdepths.inc hid hid') hregister hwalk
    have hgrown := hafter.sessions.grow (Memo.idOf?_mono hafter.grows hid)
      (Memo.idOf?_mono hafter.grows' hid') r.cursor.offset found.results
    refine ⟨_, _, Run.sequence_eq_some.mpr (.inr ⟨?_, found', s₂', ?_, rfl⟩), ?_⟩
    · rw [hx']
      exact hrefuses.trans hentered
    · rw [hx']
      exact hwalk'
    · rw [hx', hafter.outcomes.results]
      exact ⟨hgrows.trans hafter.grows, hgrows'.trans hafter.grows', hgrown.2, hgrown.1,
        hafter.outcomes.fault, hafter.outcomes.cuts, fun _ _ => ⟨trivial, trivial⟩⟩

/-- Two runs of one parser answer alike, whatever identities their sessions use. -/
theorem reuse_follows (calls calls' : Nat) (hP : rules.Closed P)
    (hpure : ∀ {l}, P (.leaf l) → ∃ f, l.Pure f) (n : Nat) {p : Parser} (hp : P p) :
    (reuse calls calls').Follows n (p.run rules n) (p.run rules n) := by
  rw [Parser.run_eq_runBy]
  refine runBy_follows hP (fun _ _ => reuse_outcomes _ _)
    (fun hl => (hpure hl).imp fun f hf => ⟨hf, fun _ => reuse_outcomes _ _⟩)
    (fun {n} _ _ _ _ _ _ hq call => ?_) n p hp
  exact fun d r s d' s' out t hr hd hs h =>
    reuse_sequence (steps_follow hP call hq) _ _ hr hd hs h

end Lockstep

/-! ### Whole parses -/

/-- Both calls, from `s` and `s'`, are out of fuel, or they give the same answer after as many calls
of parsers. -/
def SameAnswer {α : Type} (s s' : Session) : Option (α × Session) → Option (α × Session) → Prop
  | none, none => True
  | some (a, t), some (a', t') =>
    a' = a ∧ ∃ k, t.memo.calls = s.memo.calls + k ∧ t'.memo.calls = s'.memo.calls + k
  | _, _ => False

namespace Grammar

/-- Parses the whole text with some fuel. -/
def parseWithin (g : Grammar) (n : Nat) (r : Reader) (s : Session) :
    Option (Except Fault Match × Session) :=
  (g.root.run g.rules n .zero r (s.note (.starting g.name r.cursor)).forget).map fun (out, s) =>
    (select g.name r out, noteRefusals out s)

/-- Parses the whole text with some fuel and evaluates the match. -/
def evaluateWithin (g : Grammar) (n : Nat) (ctx : Context) (r : Reader) (s : Session) :
    Option (Except Fault Value × Session) :=
  (g.parseWithin n r s).map fun (result, s) =>
    match result with
    | .error f => (.error f, s)
    | .ok m => (m.value ctx, s.note (.success g.name s.memo.calls))

theorem parse_eq_parseWithin (g : Grammar) (r : Reader) (s : Session) :
    g.parse r s = g.parseWithin (g.fuel r) r s := rfl

theorem evaluate_eq_evaluateWithin (g : Grammar) (ctx : Context) (r : Reader) (s : Session) :
    g.evaluate ctx r s = g.evaluateWithin (g.fuel r) ctx r s := rfl

variable {g : Grammar}

theorem calls_noteRefusals (out : Outcome) (s : Session) :
    (noteRefusals out s).memo.calls = s.memo.calls := by
  unfold noteRefusals
  split <;> rfl

/-- An outcome is judged by its matches and its fault. -/
theorem select_congr {name : String} {r : Reader} {out out' : Outcome}
    (hresults : out'.results = out.results) (hfault : out'.fault = out.fault) :
    select name r out' = select name r out := by
  simp only [select, hresults, hfault]

theorem parseWithin_alike (hg : ∀ l, Parser.leaf l ∈ g.members → ∃ f, l.Pure f) (n : Nat)
    (r : Reader) (s s' : Session) :
    SameAnswer s s' (g.parseWithin n r s) (g.parseWithin n r s') := by
  set s₁ := (s.note (.starting g.name r.cursor)).forget
  set s₁' := (s'.note (.starting g.name r.cursor)).forget
  have htwin : Session.Twin s.memo.calls s'.memo.calls s₁ s₁' :=
    Session.Twin.of_forgotten (s.note (.starting g.name r.cursor))
      (s'.note (.starting g.name r.cursor))
  have hpure : ∀ {l}, Parser.leaf l ∈ g.members → ∃ f, l.Pure f := fun {l} hl => hg l hl
  have hforth := Lockstep.reuse_follows s.memo.calls s'.memo.calls
    g.closed_members hpure n g.root_mem_members
  have hback := Lockstep.reuse_follows s'.memo.calls s.memo.calls
    g.closed_members hpure n g.root_mem_members
  unfold parseWithin
  cases hx : g.root.run g.rules n .zero r s₁ with
  | none =>
    cases hx' : g.root.run g.rules n .zero r s₁' with
    | none => trivial
    | some y =>
      obtain ⟨_, _, h, -⟩ := hback trivial (.zero s₁' s₁) htwin.symm hx'
      rw [hx] at h
      cases h
  | some x =>
    obtain ⟨out', t', hx', hafter⟩ := hforth trivial (.zero s₁ s₁') htwin hx
    rw [hx']
    refine ⟨select_congr hafter.outcomes.results hafter.outcomes.fault, ?_⟩
    rw [calls_noteRefusals, calls_noteRefusals]
    exact hafter.sessions.called

theorem evaluateWithin_alike {n : Nat} {r : Reader} {s s' : Session}
    (h : SameAnswer s s' (g.parseWithin n r s) (g.parseWithin n r s')) (ctx : Context) :
    SameAnswer s s' (g.evaluateWithin n ctx r s) (g.evaluateWithin n ctx r s') := by
  unfold evaluateWithin
  cases hx : g.parseWithin n r s with
  | none =>
    cases hx' : g.parseWithin n r s' with
    | none => trivial
    | some y => rw [hx, hx'] at h; exact h
  | some x =>
    cases hx' : g.parseWithin n r s' with
    | none => rw [hx, hx'] at h; exact h
    | some y =>
      rw [hx, hx'] at h
      obtain ⟨result, t⟩ := x
      obtain ⟨result', t'⟩ := y
      obtain ⟨rfl, hcalls⟩ := h
      cases result' with
      | error f => exact ⟨rfl, hcalls⟩
      | ok m => exact ⟨rfl, hcalls⟩

/-- **A session may be used again.** Whatever happened in a session before, with whatever fuel, a
parse and an evaluation give the same answer as in any other session, and count as many calls. -/
theorem history_free (hg : ∀ l, Parser.leaf l ∈ g.members → ∃ f, l.Pure f) (r : Reader)
    (s s' : Session) :
    SameAnswer s s' (g.parse r s) (g.parse r s') ∧
      (∀ ctx, SameAnswer s s' (g.evaluate ctx r s) (g.evaluate ctx r s')) ∧
      ∀ n, SameAnswer s s' (g.parseWithin n r s) (g.parseWithin n r s') ∧
        ∀ ctx, SameAnswer s s' (g.evaluateWithin n ctx r s) (g.evaluateWithin n ctx r s') := by
  have hall : ∀ n, SameAnswer s s' (g.parseWithin n r s) (g.parseWithin n r s') ∧
      ∀ ctx, SameAnswer s s' (g.evaluateWithin n ctx r s) (g.evaluateWithin n ctx r s') := fun n =>
    have hparse := parseWithin_alike hg n r s s'
    ⟨hparse, evaluateWithin_alike hparse⟩
  refine ⟨?_, fun ctx => ?_, hall⟩
  · rw [parse_eq_parseWithin, parse_eq_parseWithin]
    exact (hall (g.fuel r)).1
  · rw [evaluate_eq_evaluateWithin, evaluate_eq_evaluateWithin]
    exact (hall (g.fuel r)).2 ctx

end Grammar

namespace Grammar

/-- Sums of the letter `a`, nested to the left. -/
def letterSums : Grammar where
  rules := ⟨[⟨"sum", .defined (.choice "sum" [
    .sequence ⟨0⟩ none (.group "SUM" none) (Draft.between 3 3) some
      [.rule ⟨0, "sum", false⟩, .terminal (.rune '+' "PLUS"), .leaf (.ofTerminal (.rune 'a' "A"))],
    .leaf (.ofTerminal (.rune 'a' "A"))])⟩]⟩
  root := .sentence (.rule ⟨0, "sum", true⟩)

/-- A session in which another key has the first identity, and something is remembered there. -/
def usedSession (r : Reader) : Session :=
  ((Session.fresh.register ⟨5⟩).2.countCall.grow 0 0 (Ascending.single _ ⟨none, r⟩)).2

theorem letterSums_history_free :
    (∀ l, Parser.leaf l ∈ letterSums.members → ∃ f, l.Pure f) ∧
      SameAnswer (usedSession (Reader.ofText "a+a+a" true)) .fresh
        (letterSums.parse (Reader.ofText "a+a+a" true) (usedSession (Reader.ofText "a+a+a" true)))
        (letterSums.parse (Reader.ofText "a+a+a" true) .fresh) := by
  have hpure : ∀ l, Parser.leaf l ∈ letterSums.members → ∃ f, l.Pure f := by
    intro l hl
    obtain rfl : l = .ofTerminal (.rune 'a' "A") := by
      simpa [letterSums, members, Rules.definitions, Parser.members, membersAll] using hl
    exact ⟨_, Leaf.pure_ofTerminal _⟩
  generalize Reader.ofText "a+a+a" true = r
  exact ⟨hpure, (history_free hpure r (usedSession r) .fresh).1⟩

end Grammar

end Curtail
