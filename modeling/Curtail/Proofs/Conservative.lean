/-
# Curtailment changes nothing where plain descent ends

Where plain recursive descent comes to an end, the curtailed engine comes to
the same end. The two run side by side. Plain descent that ends does not enter
a sequence again where it is still being followed: with the same reader and
the same parsers it would go round for ever. So every sequence is entered with
depth zero and none refuses. And plain descent gives one answer at one place,
whatever happened before, so whatever a sequence remembers there is what it
finds again, and joining the two changes nothing.

That a sequence is still being followed is told from fuel: plain descent has
not answered there with the fuel that is left.

What is remembered is filed by offset, so a place has to be one reader. Leaves
that only read on see to that. A leaf that sets the column does not, and where
another looks at it, the two engines part.

Key definitions: `Rules.Forward`, `Parser.Descends`, `Session.Faithful`,
`Lockstep.curtailed`, `Grammar.aslant`.
Key theorems: `Parser.descend_unique`, `Lockstep.curtailed_sequence`,
`Lockstep.curtailed_follows`, `Parser.run_of_descend`.
-/
import Curtail.Proofs.Fuel
import Curtail.Proofs.Lockstep
import Curtail.Proofs.Soundness

namespace Curtail

/-- Parsers whose calls go from a reader in `At` to readers in `At`, never back. An offset settles the
reader there, as at the true places of one text, or after reading on from any one reader. -/
structure Rules.Forward (rules : Rules) (P : Parser → Prop) (At : Reader → Prop) : Prop where
  closed : rules.Closed P
  keyed : ∀ {p q key}, P p → P q → p.key? = some key → q.key? = some key → p = q
  place : ∀ {r r'}, At r → At r' → r.cursor.offset = r'.cursor.offset → r = r'
  terminal : ∀ {t r}, P (.terminal t) → At r → ∀ m ∈ (t.read r).results.items, At m.reader
  leaf : ∀ {l}, P (.leaf l) → ∃ f, l.Pure f ∧ ∀ {r}, At r → ∀ m ∈ (f r).results.items,
    At m.reader ∧ r.cursor.offset ≤ m.stopOffset

namespace Rules

variable {rules : Rules} {P : Parser → Prop}

theorem skip_ext_offset {r : Reader} {m n : Nat}
    (h : (r.skip m).cursor.offset = (r.skip n).cursor.offset) : r.skip m = r.skip n := by
  rw [Reader.offset_skip, Reader.offset_skip] at h
  have htake : r.rest.take m = r.rest.take n := by
    have hsplit : r.rest.take m ++ r.rest.drop m = r.rest.take n ++ r.rest.drop n := by
      rw [List.take_append_drop, List.take_append_drop]
    exact eq_of_byteLength_eq hsplit (by omega)
  refine Reader.ext_cursor rfl ?_
  show r.cursor.advanceAll (r.rest.take m) = r.cursor.advanceAll (r.rest.take n)
  rw [htake]

/-- Parsers go forward from any reader if their leaves only read on. -/
theorem forward_of_skips (hclosed : rules.Closed P)
    (hkeyed : ∀ {p q key}, P p → P q → p.key? = some key → q.key? = some key → p = q)
    (hleaf : ∀ {l}, P (.leaf l) → ∃ f, l.Pure f ∧ ∀ r, ∀ m ∈ (f r).results.items,
      ∃ n, m.reader = r.skip n) (start : Reader) :
    rules.Forward P fun r => ∃ n, r = start.skip n where
  closed := hclosed
  keyed := hkeyed
  place := by
    rintro _ _ ⟨m, rfl⟩ ⟨n, rfl⟩ ho
    exact skip_ext_offset ho
  terminal {t r} _ hr m hm := by
    obtain ⟨k, rfl⟩ := hr
    obtain ⟨n, hn⟩ := t.skip_of_mem_read hm
    exact ⟨k + n, by rw [hn, Reader.skip_skip]⟩
  leaf hl := by
    obtain ⟨f, hpure, hf⟩ := hleaf hl
    refine ⟨f, hpure, ?_⟩
    rintro _ ⟨k, rfl⟩ m hm
    obtain ⟨n, hn⟩ := hf _ m hm
    refine ⟨⟨k + n, by rw [hn, Reader.skip_skip]⟩, ?_⟩
    rw [Match.stopOffset, hn]
    exact (Reader.ahead_skip _ n).le

end Rules

/-! ### Plain descent -/

namespace Lockstep

/-- Two plain descents. Neither sessions nor depths matter. -/
def plain : Lockstep where
  At _ := True
  Leads _ _ := True
  Sessions _ _ := True
  Depths _ _ _ _ _ _ := True
  Cuts a a' := a' = a
  leads_refl _ := trivial
  leads_trans _ _ := trivial
  countCall _ := trivial
  grow _ _ _ := trivial
  next _ _ _ _ := trivial
  lower _ := trivial
  cuts_empty := rfl
  cuts_append ha hb := by rw [ha, hb]
  cuts_isEmpty h := by rw [h]

theorem plain_outcomes (r : Reader) (out : Outcome) : plain.Outcomes r out out :=
  ⟨rfl, rfl, rfl, fun _ _ => ⟨trivial, trivial⟩⟩

end Lockstep

namespace Parser

variable {rules : Rules} {P : Parser → Prop} {At : Reader → Prop}

/-- Plain descent comes to an end with the outcome `out`. -/
def Descends (rules : Rules) (p : Parser) (r : Reader) (out : Outcome) : Prop :=
  ∃ n d s t, p.descend rules n d r s = some (out, t)

/-- Plain descent comes to an end with this fuel. -/
def DescendsWithin (rules : Rules) (n : Nat) (p : Parser) (r : Reader) : Prop :=
  ∃ d s x, p.descend rules n d r s = some x

theorem DescendsWithin.mono {n n' : Nat} (hn : n ≤ n') {p : Parser} {r : Reader}
    (h : DescendsWithin rules n p r) : DescendsWithin rules n' p r := by
  obtain ⟨d, s, x, hx⟩ := h
  exact ⟨d, s, x, runBy_mono Run.descent_mono hn hx⟩

/-- Plain descent gives the same outcome whatever happened before. -/
theorem descend_of_descend (hP : rules.Closed P)
    (hpure : ∀ {l}, P (.leaf l) → ∃ f, l.Pure f) {p : Parser} (hp : P p) {n : Nat} {d : Tally}
    {r : Reader} {s t : Session} {out : Outcome} (h : p.descend rules n d r s = some (out, t))
    (d' : Tally) (s' : Session) : ∃ t', p.descend rules n d' r s' = some (out, t') := by
  have hfollows : Lockstep.plain.Follows n (p.descend rules n) (p.descend rules n) :=
    Lockstep.plain.runBy_follows hP (fun _ _ => Lockstep.plain_outcomes _ _)
    (fun hl => (hpure hl).imp fun f hf => ⟨hf, fun _ => Lockstep.plain_outcomes _ _⟩)
    (fun {n key label build accepts lookup parts} hq call d r s d' s' out t hr hd hs h => by
      obtain ⟨out', t', hx, hafter⟩ := Lockstep.walk_follows (Lockstep.steps_follow hP call hq)
        hr trivial trivial h
      exact ⟨out', t', hx, (s.grows_register key).trans hafter.grows,
        (s'.grows_register key).trans hafter.grows', trivial, hafter.outcomes⟩)
    n p hp
  obtain ⟨out', t', hx, hafter⟩ := @hfollows d r s d' s' out t trivial trivial trivial h
  obtain rfl := hafter.outcomes.eq hafter.outcomes.cuts
  exact ⟨t', hx⟩

/-- Plain descent has one outcome at a reader. -/
theorem descend_unique (hP : rules.Closed P) (hpure : ∀ {l}, P (.leaf l) → ∃ f, l.Pure f)
    {p : Parser} (hp : P p) {r : Reader} {out out' : Outcome} (h : Descends rules p r out)
    (h' : Descends rules p r out') : out' = out := by
  obtain ⟨n, d, s, t, hx⟩ := h
  obtain ⟨n', d', s', t', hx'⟩ := h'
  obtain ⟨u, hu⟩ := descend_of_descend hP hpure hp hx d' s'
  have hle := runBy_mono Run.descent_mono (Nat.le_max_left n n') hu
  have hle' := runBy_mono Run.descent_mono (Nat.le_max_right n n') hx'
  rw [hle'] at hle
  cases hle
  rfl

end Parser

/-! ### The curtailed engine beside it -/

/-- All that is remembered is what plain descent finds there. -/
def Session.Faithful (rules : Rules) (P : Parser → Prop) (At : Reader → Prop) (s : Session) : Prop :=
  ∀ id offset, s.memo.known id offset = ∅ ∨ ∃ q key r out, P q ∧ q.key? = some key ∧
    s.memo.idOf? key = some id ∧ At r ∧ r.cursor.offset = offset ∧ Parser.Descends rules q r out ∧
    s.memo.known id offset = out.results

/-- Every sequence entered at `r` is still being followed by plain descent with this fuel. -/
def Tally.Open (rules : Rules) (P : Parser → Prop) (n : Nat) (r : Reader) (d : Tally) (s : Session) :
    Prop :=
  ∀ id, d.get id ≠ 0 → ∃ q key, P q ∧ q.key? = some key ∧ s.memo.idOf? key = some id ∧
    ¬ Parser.DescendsWithin rules n q r

/-- No leaf reports that something refused to recurse. -/
def Rules.Quiet (P : Parser → Prop) (At : Reader → Prop) : Prop :=
  ∀ {l f}, P (.leaf l) → l.Pure f → ∀ {r}, At r → (f r).curtailed = ∅

section Faithful

variable {rules : Rules} {P : Parser → Prop} {At : Reader → Prop} {s s' : Session}

theorem Session.Faithful.of_known (h : s.Faithful rules P At) (hgrows : s.Grows s')
    (hknown : ∀ id offset, s'.memo.known id offset = s.memo.known id offset) :
    s'.Faithful rules P At := by
  intro id offset
  rcases h id offset with hnone | ⟨q, key, r, out, hq, hkey, hid, hr, ho, hdescends, hout⟩
  · exact .inl (by rw [hknown, hnone])
  · exact .inr ⟨q, key, r, out, hq, hkey, Memo.idOf?_mono hgrows hid, hr, ho, hdescends,
      by rw [hknown, hout]⟩

/-- What a sequence remembers where plain descent ends adds nothing. -/
theorem Session.Faithful.append_known (hF : rules.Forward P At) (h : s.Faithful rules P At)
    {p : Parser} {key : Key} {id : Nat} {r : Reader} {out : Outcome} (hp : P p)
    (hkey : p.key? = some key) (hid : s.memo.idOf? key = some id) (hr : At r)
    (hdescends : Parser.Descends rules p r out) :
    out.results ++ s.memo.known id r.cursor.offset = out.results := by
  rcases h id r.cursor.offset with hnone | ⟨q, key', r', out', hq, hkey', hid', hr', ho, hd', hout⟩
  · rw [hnone, Ascending.append_empty]
  · obtain rfl := Memo.idOf?_inj hid hid'
    obtain rfl := hF.keyed hp hq hkey hkey'
    obtain rfl := hF.place hr' hr ho
    have hpure : ∀ {l}, P (.leaf l) → ∃ f, l.Pure f := fun hl => (hF.leaf hl).imp fun _ hf => hf.1
    obtain rfl := Parser.descend_unique hF.closed hpure hp hdescends hd'
    rw [hout, Ascending.append_self]

theorem Session.Faithful.grow (hF : rules.Forward P At) (h : s.Faithful rules P At)
    {p : Parser} {key : Key} {id : Nat} {r : Reader} {out : Outcome} (hp : P p)
    (hkey : p.key? = some key) (hid : s.memo.idOf? key = some id) (hr : At r)
    (hdescends : Parser.Descends rules p r out) :
    (s.grow id r.cursor.offset out.results).2.Faithful rules P At := by
  intro id' offset
  rw [Session.known_grow]
  split
  · rename_i heq
    obtain ⟨rfl, rfl⟩ := heq
    exact .inr ⟨p, key, r, out, hp, hkey, hid, hr, rfl, hdescends,
      h.append_known hF hp hkey hid hr hdescends⟩
  · exact h id' offset

end Faithful

namespace Lockstep

variable {rules : Rules} {P : Parser → Prop} {At : Reader → Prop}

/-- Plain descent, and the curtailed engine beside it, after as many calls since their counts were
`calls` and `calls'`. -/
def curtailed (hF : rules.Forward P At) (calls calls' : Nat) : Lockstep where
  At := At
  Leads r r' := r.cursor.offset ≤ r'.cursor.offset
  Sessions s s' := (∃ k, s.memo.calls = calls + k ∧ s'.memo.calls = calls' + k) ∧
    s'.Faithful rules P At
  Depths n r _ _ d' s' := d'.Open rules P n r s'
  Cuts a a' := a' = a ∧ (Rules.Quiet P At → a = ∅)
  leads_refl _ := Nat.le_refl _
  leads_trans := Nat.le_trans
  countCall h := by
    obtain ⟨⟨k, hk, hk'⟩, hfaithful⟩ := h
    exact ⟨⟨k + 1, congrArg (· + 1) hk, congrArg (· + 1) hk'⟩, hfaithful⟩
  grow h _ hgrows id hid := by
    obtain ⟨q, key, hq, hkey, hid, hopen⟩ := h id hid
    exact ⟨q, key, hq, hkey, Memo.idOf?_mono hgrows hid, hopen⟩
  next {n r d s d' s' r'} h hr hr' hle := by
    unfold Run.depthsAfter
    split
    · exact fun id hid => absurd (Tally.get_zero id) hid
    · obtain rfl := hF.place hr hr' (by omega)
      exact h
  lower h id hid := by
    obtain ⟨q, key, hq, hkey, hid, hopen⟩ := h id hid
    exact ⟨q, key, hq, hkey, hid, fun hends => hopen (hends.mono (Nat.le_succ _))⟩
  cuts_empty := ⟨rfl, fun _ => rfl⟩
  cuts_append ha hb := by
    refine ⟨by rw [ha.1, hb.1], fun hquiet => ?_⟩
    rw [ha.2 hquiet, hb.2 hquiet]
    rfl
  cuts_isEmpty h := by rw [h.1]

end Lockstep

namespace Lockstep

variable {rules : Rules} {P : Parser → Prop} {At : Reader → Prop}

/-- A sequence at which plain descent ends is not refused, and remembers nothing else. -/
theorem curtailed_sequence (hF : rules.Forward P At) {calls calls' n : Nat} {key : Key}
    {label : Option String} {build : Builder} {accepts : Nat → Bool} {lookup : Nat → Option Nat}
    {parts : List Parser} (hp : P (.sequence key label build accepts lookup parts))
    (call : ∀ p, P p → (curtailed hF calls calls').Follows n (p.runBy rules Run.descent n)
      (p.runBy rules Run.sequence n)) :
    (curtailed hF calls calls').Follows (n + 1)
      ((Parser.sequence key label build accepts lookup parts).runBy rules Run.descent (n + 1))
      ((Parser.sequence key label build accepts lookup parts).runBy rules Run.sequence (n + 1)) := by
  intro d r s d' s' out t hr hd hs h
  have hpure : ∀ {l}, P (.leaf l) → ∃ f, l.Pure f := fun hl => (hF.leaf hl).imp fun _ hf => hf.1
  by_cases hends : Parser.DescendsWithin rules n (.sequence key label build accepts lookup parts) r
  · -- plain descent needs less fuel, and so does the engine beside it
    obtain ⟨d₀, s₀, x, hx⟩ := hends
    obtain ⟨u, hu⟩ := Parser.descend_of_descend hF.closed hpure hp hx d s
    have hmore := Parser.runBy_mono Run.descent_mono (Nat.le_succ n) hu
    rw [h] at hmore
    cases hmore
    obtain ⟨out', t', hx', hafter⟩ := call _ hp hr ((curtailed hF calls calls').lower hd) hs hu
    exact ⟨out', t', Parser.runBy_mono Run.sequence_mono (Nat.le_succ n) hx', hafter⟩
  · have hid := s'.idOf?_register key
    have hgrows := s.grows_register key
    have hgrows' := s'.grows_register key
    have hopen := (curtailed hF calls calls').grow hd hgrows hgrows'
    have hsessions : (curtailed hF calls calls').Sessions (s.countCall.register key).2
        (s'.countCall.register key).2 := by
      obtain ⟨hcalls, hfaithful⟩ := (curtailed hF calls calls').countCall hs
      refine ⟨?_, hfaithful.of_known hgrows' (s'.countCall.known_register key)⟩
      rw [Session.calls_register, Session.calls_register]
      exact hcalls
    rw [Parser.runBy_sequence, Run.descent] at h
    generalize hreg : s'.countCall.register key = x' at *
    obtain ⟨id, s₁'⟩ := x'
    -- a sequence that is still being followed would have no answer with more fuel
    have hzero : d'.get id = 0 := by
      refine Decidable.byContradiction fun hne => ?_
      obtain ⟨q, key', hq, hkey', hid', hopen'⟩ := hopen id hne
      obtain rfl := Memo.idOf?_inj hid hid'
      obtain rfl := hF.keyed hp hq rfl hkey'
      exact hopen' ⟨d, s, (out, t), h⟩
    have hentered : Run.refuses d' r id = false := by
      rw [Run.refuses, hzero]
      exact decide_eq_false (Nat.not_lt_zero _)
    have hinc : (curtailed hF calls calls').Depths n r (d.inc (s.countCall.register key).1)
        (s.countCall.register key).2 (d'.inc id) s₁' := by
      intro id' hne
      by_cases heq : id = id'
      · subst heq
        exact ⟨_, key, hp, rfl, hid, hends⟩
      · rw [Tally.get_inc, if_neg heq] at hne
        exact (curtailed hF calls calls').lower hopen id' hne
    obtain ⟨found, t', hwalk, hafter⟩ := walk_follows (steps_follow hF.closed call hp) hr hinc
      hsessions h
    have hdescends : Parser.Descends rules (.sequence key label build accepts lookup parts) r out :=
      ⟨n + 1, d, s, t, h⟩
    have hid' := Memo.idOf?_mono hafter.grows' hid
    have hfound : (t'.grow id r.cursor.offset found.results).1 = out.results := by
      rw [hafter.outcomes.results]
      exact hafter.sessions.2.append_known hF hp rfl hid' hr hdescends
    refine ⟨_, _, Run.sequence_eq_some.mpr (.inr ⟨?_, found, t', ?_, rfl⟩), ?_⟩
    · rw [hreg]
      exact hentered
    · rw [hreg]
      exact hwalk
    · rw [hreg]
      refine ⟨hgrows.trans hafter.grows, hgrows'.trans hafter.grows', ⟨hafter.sessions.1, ?_⟩,
        hfound, hafter.outcomes.fault, hafter.outcomes.cuts, hafter.outcomes.leads⟩
      rw [hafter.outcomes.results]
      exact hafter.sessions.2.grow hF hp rfl hid' hr hdescends

/-- The curtailed engine follows plain descent. -/
theorem curtailed_follows (hF : rules.Forward P At) (calls calls' n : Nat) {p : Parser} (hp : P p) :
    (curtailed hF calls calls').Follows n (p.runBy rules Run.descent n)
      (p.runBy rules Run.sequence n) :=
  (curtailed hF calls calls').runBy_follows hF.closed
    (fun {t r} ht hr => ⟨rfl, rfl, ⟨rfl, fun _ => t.curtailed_read r⟩, fun m hm =>
      ⟨hF.terminal ht hr m hm, (t.ahead_of_mem_read hm).le⟩⟩)
    (fun {l} hl => by
      obtain ⟨f, hpure, hf⟩ := hF.leaf hl
      exact ⟨f, hpure, fun hr => ⟨rfl, rfl, ⟨rfl, fun hquiet => hquiet hl hpure hr⟩, hf hr⟩⟩)
    (fun hq call => curtailed_sequence hF hq call) n p hp

/-- With nothing remembered the two are in step before anything was entered. -/
theorem curtailed_start (hF : rules.Forward P At) (n : Nat) (d : Tally) (r : Reader) (s₀ : Session)
    {s : Session} (hs : ∀ id offset, s.memo.known id offset = ∅) :
    (curtailed hF s₀.memo.calls s.memo.calls).Sessions s₀ s ∧
      (curtailed hF s₀.memo.calls s.memo.calls).Depths n r d s₀ .zero s :=
  ⟨⟨⟨0, rfl, rfl⟩, fun id offset => .inl (hs id offset)⟩,
    fun id hid => absurd (Tally.get_zero id) hid⟩

end Lockstep

/-- **Curtailment is conservative.** Where plain descent ends, a parse with nothing remembered ends
with the same outcome, after as many calls; nothing was refused, if leaves report no refusals of
their own. -/
theorem Parser.run_of_descend {rules : Rules} {P : Parser → Prop} {At : Reader → Prop}
    (hF : rules.Forward P At) {p : Parser} (hp : P p) {r : Reader} (hr : At r) {n : Nat} {d : Tally}
    {s₀ t₀ : Session} {out : Outcome} (h : p.descend rules n d r s₀ = some (out, t₀)) {s : Session}
    (hs : ∀ id offset, s.memo.known id offset = ∅) :
    (∃ t, p.run rules n .zero r s = some (out, t) ∧
      ∃ k, t₀.memo.calls = s₀.memo.calls + k ∧ t.memo.calls = s.memo.calls + k) ∧
    (Rules.Quiet P At → out.curtailed = ∅) := by
  obtain ⟨hsessions, hdepths⟩ := Lockstep.curtailed_start hF n d r s₀ hs
  obtain ⟨out', t, hx, hafter⟩ := Lockstep.curtailed_follows hF s₀.memo.calls s.memo.calls n hp hr
    hdepths hsessions h
  obtain ⟨hcuts, hquiet⟩ := hafter.outcomes.cuts
  obtain rfl := hafter.outcomes.eq hcuts
  rw [← Parser.run_eq_runBy] at hx
  exact ⟨⟨t, hx, hafter.sessions.1⟩, hquiet⟩

namespace Grammar

/-- Letters in brackets, to any depth. A bracket may be followed by a mark or not, so it is tried twice
at one place. -/
def nested : Grammar where
  rules := ⟨[
    ⟨"nest", .defined (.choice "nest" [
      .sequence ⟨1⟩ none (.group "MARKED" none) (Draft.between 2 2) some
        [.rule ⟨1, "bracket", false⟩, .terminal (.rune '!' "MARK")],
      .rule ⟨1, "bracket", false⟩, .leaf (.ofTerminal (.rune 'a' "A"))])⟩,
    ⟨"bracket", .defined (.sequence ⟨0⟩ none (.group "BRACKET" none) (Draft.between 3 3) some
      [.terminal (.rune '(' "OPEN"), .rule ⟨0, "nest", false⟩, .terminal (.rune ')' "CLOSE")])⟩]⟩
  root := .sentence (.rule ⟨0, "nest", true⟩)

theorem nested_forward (start : Reader) :
    nested.rules.Forward (· ∈ nested.members) fun r => ∃ n, r = start.skip n := by
  refine Rules.forward_of_skips nested.closed_members (eq_of_key? (by decide)) ?_ start
  intro l hl
  obtain rfl : l = .ofTerminal (.rune 'a' "A") := by
    simpa [nested, members, Rules.definitions, Parser.members, membersAll] using hl
  exact ⟨_, Leaf.pure_ofTerminal _, fun r m hm => Terminal.skip_of_mem_read _ hm⟩

theorem nested_run_of_descend :
    nested.root ∈ nested.members ∧ (∀ id offset, Session.fresh.memo.known id offset = ∅) ∧
      ∃ out t₀ t, nested.root.descend nested.rules 30 .zero (Reader.ofText "(a)" true) .fresh =
          some (out, t₀) ∧
        nested.root.run nested.rules 30 .zero (Reader.ofText "(a)" true) .fresh = some (out, t) := by
  obtain ⟨out, t₀, h⟩ : ∃ out t₀, nested.root.descend nested.rules 30 .zero
      (Reader.ofText "(a)" true) .fresh = some (out, t₀) := ⟨_, _, rfl⟩
  have hknown : ∀ id offset, Session.fresh.memo.known id offset = ∅ := Session.known_forget .fresh
  obtain ⟨⟨t, hx, -⟩, -⟩ := Parser.run_of_descend (nested_forward (Reader.ofText "(a)" true))
    nested.root_mem_members ⟨0, (Reader.skip_zero _).symm⟩ h hknown
  exact ⟨nested.root_mem_members, hknown, out, t₀, t, h, hx⟩

end Grammar

/-- The same offset, one column further to the right. -/
def Reader.aside (r : Reader) : Reader := r.moveTo { r.cursor with column := r.cursor.column + 1 }

theorem Reader.ahead_aside (r : Reader) : r.Ahead r.aside :=
  ⟨rfl, Nat.le_refl _, fun h => absurd h (Nat.lt_irrefl _)⟩

namespace Grammar

/-- One character in the first column, two in any other. -/
def stepByColumn (r : Reader) : Outcome :=
  .matched ⟨none, r.skip (if r.cursor.column = 1 then 1 else 2)⟩

/-- A step that is tried twice at one offset, the second time a column further to the right. -/
def aslant : Grammar where
  rules := .empty
  root :=
    let step := Parser.sequence ⟨0⟩ none .discard (Draft.between 1 1) some
      [.leaf (.ofAnswer "step" stepByColumn)]
    .choice "aslant" [
      .sequence ⟨1⟩ none .discard (Draft.between 2 2) some [step, .terminal (.rune 'z' "Z")],
      .sequence ⟨2⟩ none .discard (Draft.between 2 2) some
        [.leaf (.ofAnswer "aside" fun r => .matched ⟨none, r.aside⟩), step]]

theorem aslant_leaves : ∀ l, .leaf l ∈ aslant.members → ∃ f, l.Pure f ∧ ∀ r,
    ∀ m ∈ (f r).results.items, r.cursor.offset ≤ m.stopOffset := by
  intro l hl
  simp only [aslant, members, Rules.definitions, Rules.empty, List.filterMap_nil, membersAll,
    Parser.members, List.append_nil, List.cons_append, List.nil_append, List.mem_cons,
    List.not_mem_nil, or_false, reduceCtorEq, Parser.leaf.injEq, false_or] at hl
  rcases hl with rfl | rfl | rfl <;> refine ⟨_, Leaf.pure_ofAnswer _ _, fun r m hm => ?_⟩ <;>
    rw [Run.mem_matched hm]
  · exact (r.ahead_skip _).le
  · exact r.ahead_aside.le
  · exact (r.ahead_skip _).le

/-- The counterexample to an engine that only adds to plain descent, whatever pure leaves there are. A
leaf that reports a refusal has it in the outcome, though no sequence refused. And what is remembered
is known by its offset: where leaves look at the column, a sequence that is entered at one offset in
two columns finds in the second what only the first leads to. -/
theorem aslant_not_conservative :
    ((∃ f, (Leaf.refusing 7).Pure f ∧ ∀ r, ∀ m ∈ (f r).results.items,
        r.cursor.offset ≤ m.stopOffset) ∧
      ∃ out t u,
        (Parser.leaf (.refusing 7)).descend .empty 1 .zero (Reader.ofText "" false) .fresh =
          some (out, t) ∧
        (Parser.leaf (.refusing 7)).run .empty 1 .zero (Reader.ofText "" false) .fresh =
          some (out, u) ∧ out.curtailed.isEmpty = false) ∧
    (∀ l, .leaf l ∈ aslant.members → ∃ f, l.Pure f ∧ ∀ r, ∀ m ∈ (f r).results.items,
        r.cursor.offset ≤ m.stopOffset) ∧
      ∃ out t found u,
        aslant.root.descend aslant.rules 6 .zero (Reader.ofText "ab" false) .fresh =
          some (out, t) ∧
        aslant.root.run aslant.rules 6 .zero (Reader.ofText "ab" false) .fresh =
          some (found, u) ∧
        out.results.items.map Match.stopOffset = [2] ∧
        found.results.items.map Match.stopOffset = [1, 2] :=
  ⟨⟨⟨fun _ => .refused 7, fun _ _ _ => rfl, nofun⟩, _, _, _, rfl, rfl, rfl⟩, aslant_leaves,
    _, _, _, _, rfl, rfl, rfl, rfl⟩

end Grammar

end Curtail
