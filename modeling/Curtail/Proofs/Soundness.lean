/-
# Every match is derivable

What a grammar means is said by derivations: a choice derives what one of its
alternatives does, a sequence what a chain of its parts does, a rule what its
definition does, and nothing is said of curtailment or memory. The matches of a
call are all derivable from where it was called, and so is all that the session
remembers, from the offsets it is filed under.

A memo files matches under identities and offsets. Sequences that share a key
have to be the same, and calls have to start at true places of one text, for an
entry to say what it was found by and where.

Key definitions: `Derives`, `Rules.Coherent`, `Session.Used`, `Session.Traced`.
Key theorems: `Rules.Coherent.respects`, `Parser.run_sound`.
-/
import Curtail.Proofs.Places
import Curtail.Proofs.Selection
import Curtail.Proofs.Termination
import Curtail.Proofs.Yields

namespace Curtail

mutual

/-- A parser derives a match from a reader. -/
inductive Derives (rules : Rules) : Parser → Reader → Match → Prop
  | terminal {t : Terminal} {r : Reader} {m : Match} :
    m ∈ (t.read r).results.items → Derives rules (.terminal t) r m
  | leaf {l : Leaf} {d : Tally} {r : Reader} {s : Session} {m : Match} :
    m ∈ (l.answer d r s).1.results.items → Derives rules (.leaf l) r m
  | choice {name : String} {ps : List Parser} {q : Parser} {r : Reader} {m : Match} :
    q ∈ ps → Derives rules q r m → Derives rules (.choice name ps) r m
  | sequence {key : Key} {label : Option String} {build : Builder} {accepts : Nat → Bool}
      {lookup : Nat → Option Nat} {parts : List Parser} {r r' : Reader} {k : Nat} {nodes : List Node} :
    DerivesChain rules (Parser.pick lookup parts) r k nodes r' → accepts k = true →
      Derives rules (.sequence key label build accepts lookup parts) r ⟨build nodes, r'⟩
  | repetition {b : Run.Bounds} {p : Parser} {r r' : Reader} {k : Nat} {nodes : List Node} :
    DerivesChain rules (fun _ => some p) r k nodes r' → b.least ≤ k →
      (∀ most, b.most = some most → k ≤ most) →
      Derives rules (.repetition b p) r ⟨if k = 0 then none else b.build nodes, r'⟩
  | sentence {p : Parser} {r : Reader} {m : Match} :
    Derives rules p r m → m.reader.atEnd = true → Derives rules (.sentence p) r m
  | orEmpty {token : String} {p : Parser} {r : Reader} {m : Match} :
    Derives rules p r m → Derives rules (.orEmpty token p) r m
  | emptyGroup {token : String} {p : Parser} {r : Reader} :
    Derives rules (.orEmpty token p) r ⟨some (.emptyGroup token r.cursor none), r⟩
  | rule {h : Handle} {q : Parser} {r : Reader} {m : Match} :
    rules.state h.id = .defined q → Derives rules q r m → Derives rules (.rule h) r m

/-- The first `k` parsers derive one match each, one after the other, with these nodes. -/
inductive DerivesChain (rules : Rules) :
    (Nat → Option Parser) → Reader → Nat → List Node → Reader → Prop
  | nil {lookup : Nat → Option Parser} {r : Reader} : DerivesChain rules lookup r 0 [] r
  | snoc {lookup : Nat → Option Parser} {r r' : Reader} {k : Nat} {nodes : List Node} {q : Parser}
      {m : Match} :
    DerivesChain rules lookup r k nodes r' → lookup k = some q → Derives rules q r' m →
      DerivesChain rules lookup r (k + 1) (nodes ++ m.node.toList) m.reader

end

/-- Parsers that may be used with one session: nothing called from within leaves them, their leaves
are pure and lead from true places to true places, and what has the key of a sequence is that
sequence. -/
structure Rules.Coherent (rules : Rules) (P : Parser → Prop) : Prop where
  closed : rules.Closed P
  leaf : ∀ {l}, P (.leaf l) → ∃ f, l.Pure f ∧ ∀ r : Reader, r.Placed →
    ∀ m ∈ (f r).results.items, m.reader.source = r.source ∧ m.reader.Placed
  keyed : ∀ {p q key}, P p → P q → p.key? = some key → q.key? = some key → p = q

/-- The reader stands at a true place of the text. -/
def Reader.PlacedIn (r : Reader) (source : Source) : Prop := r.source = source ∧ r.Placed

section Sessions

variable {rules : Rules} {P : Parser → Prop} {source : Source}

/-- Sessions whose matches were all found by calls at true places of the text. -/
inductive Session.Used (rules : Rules) (P : Parser → Prop) (source : Source) : Session → Prop
  /-- Nothing is remembered, as after forgetting. -/
  | forgotten {s : Session} : (∀ id offset, s.memo.known id offset = ∅) → Used rules P source s
  /-- One more call came to an end. -/
  | called {s s' : Session} {p : Parser} {n : Nat} {d : Tally} {r : Reader} {out : Outcome} :
    Used rules P source s → P p → r.PlacedIn source → p.run rules n d r s = some (out, s') →
      Used rules P source s'
  /-- Something else happened: keys were registered, events noted, calls counted. -/
  | otherwise {s s' : Session} : Used rules P source s → s.Grows s' →
    (∀ id offset, s'.memo.known id offset = s.memo.known id offset) → Used rules P source s'

/-- All that is remembered is derivable from a true place with its offset by the sequence that has
its identity. -/
def Session.Traced (rules : Rules) (P : Parser → Prop) (source : Source) (s : Session) : Prop :=
  ∀ id offset, ∀ m ∈ (s.memo.known id offset).items, ∃ p key r, P p ∧ p.key? = some key ∧
    s.memo.idOf? key = some id ∧ r.PlacedIn source ∧ r.cursor.offset = offset ∧
    m.reader.PlacedIn source ∧ Derives rules p r m

theorem Session.Traced.of_known {s s' : Session} (h : s.Traced rules P source) (hgrows : s.Grows s')
    (hknown : ∀ id offset, s'.memo.known id offset = s.memo.known id offset) :
    s'.Traced rules P source := by
  intro id offset m hm
  rw [hknown] at hm
  obtain ⟨p, key, r, hp, hkey, hid, hrest⟩ := h id offset m hm
  exact ⟨p, key, r, hp, hkey, Memo.idOf?_mono hgrows hid, hrest⟩

theorem Session.traced_of_forgotten {s : Session} (h : ∀ id offset, s.memo.known id offset = ∅) :
    s.Traced rules P source := forall_of_forgotten h

theorem kept_traced : Run.Kept (Session.Traced rules P source) where
  countCall h := h
  register {s} key h := h.of_known (Memo.keys_register s.memo key) (s.known_register key)
  note _ h := h

/-! ### The induction -/

theorem DerivesChain.of_chain {lookup : Nat → Option Parser} {r r' : Reader} {k : Nat}
    {nodes : List Node}
    (h : Run.Chain (fun i r m => ∃ q, lookup i = some q ∧ Derives rules q r m) r k nodes r') :
    DerivesChain rules lookup r k nodes r' := by
  induction h with
  | nil => exact .nil
  | snoc _ hm ih =>
    obtain ⟨q, hq, hm⟩ := hm
    exact ih.snoc hq hm

/-- Entries of one identity and offset are those of one sequence at one reader. -/
theorem Session.Traced.derives (hP : rules.Coherent P) {s : Session} (h : s.Traced rules P source)
    {p : Parser} {key : Key} {id : Nat} {r : Reader} (hp : P p) (hkey : p.key? = some key)
    (hid : s.memo.idOf? key = some id) (hr : r.PlacedIn source) {m : Match}
    (hm : m ∈ (s.memo.known id r.cursor.offset).items) :
    m.reader.PlacedIn source ∧ Derives rules p r m := by
  obtain ⟨p', key', r', hp', hkey', hid', hr', hoffset, hat, hderives⟩ := h _ _ m hm
  rw [Memo.idOf?_inj hid' hid] at hkey'
  obtain rfl := hP.keyed hp' hp hkey' hkey
  obtain rfl := hr'.2.ext_offset hr.2 (hr'.1.trans hr.1.symm) hoffset
  exact ⟨hat, hderives⟩

/-- Derivability is passed on by all combinators, by way of the memory too. -/
theorem Rules.Coherent.respects (hP : rules.Coherent P) (source : Source) :
    rules.Respects P (Session.Traced rules P source) (·.PlacedIn source) (Derives rules) where
  closed := hP.closed
  kept := kept_traced
  terminal {t r m} _ hr hm :=
    ⟨⟨(t.ahead_of_mem_read hm).source.trans hr.1, t.placed_of_mem_read hr.2 hm⟩, .terminal hm⟩
  leaf {l} hl d r s out s' hr hs h := by
    obtain ⟨f, hpure, hf⟩ := hP.leaf hl
    have hans := hpure d r s
    obtain ⟨rfl, rfl⟩ : f r = out ∧ s = s' := by simpa [hans] using h
    refine Run.yielded_now hs fun m hm => ?_
    obtain ⟨hsource, hplaced⟩ := hf r hr.2 m hm
    exact ⟨⟨hsource.trans hr.1, hplaced⟩, .leaf (by rwa [hans])⟩
  choice hq hm := .choice hq hm
  sequence {key label build accepts lookup parts r m} h := by
    obtain ⟨k, nodes, hchain, haccepts, hnode⟩ := h
    obtain ⟨node, r'⟩ := m
    simp only at hchain hnode
    subst hnode
    exact .sequence (.of_chain hchain) haccepts
  repetition {b p r m} h := by
    obtain ⟨k, nodes, hchain, hleast, hmost, hnode⟩ := h
    obtain ⟨node, r'⟩ := m
    simp only at hchain hnode
    subst hnode
    refine .repetition (.of_chain ?_) hleast hmost
    simpa using hchain
  sentence hm hend := .sentence hm hend
  orEmpty hm := .orEmpty hm
  emptyGroup := .emptyGroup
  rule hq hm := .rule hq hm
  memory {key label build accepts lookup parts} hp r s id found hr hs hid hfound := by
    refine ⟨Session.forall_grow hs fun m hm => ?_, fun m hm => hs.derives hP hp rfl hid hr hm⟩
    obtain ⟨hat, hderives⟩ := hfound m hm
    exact ⟨_, key, r, hp, rfl, hid, hr, rfl, hat, hderives⟩

end Sessions

theorem eq_of_nodup_filterMap {α β : Type} {f : α → Option β} :
    ∀ {l : List α}, (l.filterMap f).Nodup → ∀ {a b : α}, a ∈ l → b ∈ l → ∀ {c : β},
      f a = some c → f b = some c → a = b
  | x :: l, h, a, b, ha, hb, c, hac, hbc => by
    have hmem : ∀ {z : α}, z ∈ l → f z = some c → c ∈ l.filterMap f := fun hz hzc =>
      List.mem_filterMap.mpr ⟨_, hz, hzc⟩
    cases hx : f x with
    | none =>
      rw [List.filterMap_cons_none hx] at h
      have ha : a ∈ l := (List.mem_cons.mp ha).resolve_left fun heq => by simp [heq, hx] at hac
      have hb : b ∈ l := (List.mem_cons.mp hb).resolve_left fun heq => by simp [heq, hx] at hbc
      exact eq_of_nodup_filterMap h ha hb hac hbc
    | some c' =>
      rw [List.filterMap_cons_some hx, List.nodup_cons] at h
      obtain ⟨hnew, h⟩ := h
      rcases List.mem_cons.mp ha with rfl | ha' <;> rcases List.mem_cons.mp hb with rfl | hb'
      · rfl
      · obtain rfl := Option.some.inj (hx.symm.trans hac)
        exact absurd (hmem hb' hbc) hnew
      · obtain rfl := Option.some.inj (hx.symm.trans hbc)
        exact absurd (hmem ha' hac) hnew
      · exact eq_of_nodup_filterMap h ha' hb' hac hbc

namespace Grammar

/-- Where every sequence has a key of its own and is written once, a key settles the sequence. -/
theorem eq_of_key? {g : Grammar} (h : g.keys.Nodup) {p q : Parser} {key : Key} (hp : p ∈ g.members)
    (hq : q ∈ g.members) (hpkey : p.key? = some key) (hqkey : q.key? = some key) : p = q :=
  eq_of_nodup_filterMap h hp hq hpkey hqkey

/-- **Soundness of parsing.** The match of a parse is derivable from the root and reaches the end. -/
theorem parse_sound {g : Grammar} (hg : g.rules.Coherent (· ∈ g.members)) {r : Reader}
    (hr : r.Placed) {s s' : Session} {m : Match} (h : g.parse r s = some (.ok m, s')) :
    Derives g.rules g.root r m ∧ m.reader.atEnd = true := by
  obtain ⟨⟨out, s₁⟩, hx, heq⟩ := Option.map_eq_some_iff.mp h
  simp only [Prod.mk.injEq] at heq
  obtain ⟨hselect, -⟩ := heq
  have htraced : (s.note (.starting g.name r.cursor)).forget.Traced g.rules (· ∈ g.members) r.source :=
    Session.traced_of_forgotten (Session.known_forget _)
  have hy := Parser.run_yields (hg.respects r.source) _ g.root_mem_members ⟨rfl, hr⟩ htraced hx
  obtain ⟨hm, hend⟩ := mem_of_select hselect
  exact ⟨(hy.found m hm).2, hend⟩

end Grammar

end Curtail
