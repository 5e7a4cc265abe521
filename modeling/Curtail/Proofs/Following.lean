/-
# Leaves that find one match

A leaf that finds at most one match at every reader, whatever was called
before, leaves nothing behind that a later call depends on. A sequence whose
parts after the first are such leaves extends each match of the first part in
at most one way, and adds what it remembers.

Key definitions: `Session.Alike`, `Parser.Finds`, `ReadsOn`, `follow`,
`extend`.
Key theorems: `Terminal.finds`, `trail_follow`, `Parser.run_sequence_follow`,
`Parser.run_choice_pair`.
-/
import Curtail.Proofs.Finding
import Curtail.Proofs.Identity
import Curtail.Proofs.Members
import Curtail.Proofs.Reading
import Mathlib.Data.List.Forall2

namespace Curtail

/-- The same identities and the same matches are known. -/
structure Session.Alike (s s' : Session) : Prop where
  keys : s'.memo.keys = s.memo.keys
  known : ∀ id offset, s'.memo.known id offset = s.memo.known id offset

namespace Session.Alike

theorem refl (s : Session) : s.Alike s := ⟨rfl, fun _ _ => rfl⟩

theorem trans {s s' s'' : Session} (h : s.Alike s') (h' : s'.Alike s'') : s.Alike s'' :=
  ⟨h'.keys.trans h.keys, fun id offset => (h'.known id offset).trans (h.known id offset)⟩

theorem countCall (s : Session) : s.Alike s.countCall := ⟨rfl, fun _ _ => rfl⟩

theorem grows {s s' : Session} (h : s.Alike s') : s.Grows s' := by
  show s.memo.keys <+: s'.memo.keys
  simp only [h.keys, List.prefix_rfl]

theorem idOf? {s s' : Session} (h : s.Alike s') (key : Key) :
    s'.memo.idOf? key = s.memo.idOf? key := by
  unfold Memo.idOf?
  rw [h.keys]

end Session.Alike

/-- A leaf that finds `find r` at every reader `r`, and nothing else. -/
def Parser.Finds (p : Parser) (find : Reader → Option Match) : Prop :=
  match p with
  | .terminal t => ∀ r, (t.read r).results.items = (find r).toList
  | .leaf l => ∃ f, l.Pure f ∧ ∀ r, (f r).results.items = (find r).toList
  | _ => False

/-- What is found ends in the same text, further on, and not past what can be read. -/
def ReadsOn (find : Reader → Option Match) : Prop :=
  ∀ r m, find r = some m → m.reader.source = r.source ∧ r.cursor.offset < m.stopOffset ∧
    m.stopOffset ≤ r.source.limit

theorem ReadsOn.ahead {find : Reader → Option Match} (h : ReadsOn find) {r : Reader} {m : Match}
    (hm : find r = some m) : r.Ahead m.reader := by
  obtain ⟨hsource, hlt, hinside⟩ := h r m hm
  exact ⟨hsource, Nat.le_of_lt hlt, fun _ => hinside⟩

/-- One match of each after the other: their nodes and the reader after them. -/
def follow : List (Reader → Option Match) → Reader → Option (List Node × Reader)
  | [], r => some ([], r)
  | find :: finds, r =>
    (find r).bind fun m => (follow finds m.reader).map fun x => (m.node.toList ++ x.1, x.2)

/-- A match made longer by one match of each, the nodes built into one. -/
def extend (build : Builder) (finds : List (Reader → Option Match)) (m : Match) : Option Match :=
  (follow finds m.reader).map fun x => ⟨build (m.node.toList ++ x.1), x.2⟩

/-! ### Terminals -/

namespace Terminal

/-- What a terminal finds. -/
def find (t : Terminal) (r : Reader) : Option Match := (t.read r).results.items.head?

theorem length_items_leafOf (token : String) (value : Value) (read? : Option (Position × Reader)) :
    (leafOf token value read?).results.items.length ≤ 1 := by
  cases read? with
  | none => exact Nat.zero_le 1
  | some x => exact Nat.le_refl 1

/-- A terminal matches at most once. -/
theorem length_items_read (t : Terminal) (r : Reader) : (t.read r).results.items.length ≤ 1 := by
  cases t with
  | rune c token => exact length_items_leafOf _ _ _
  | word w token value => exact length_items_leafOf _ _ _
  | nil w => exact length_items_leafOf _ _ _
  | integer =>
    simp only [read, readInteger]
    repeat' split
    all_goals first | exact Nat.zero_le 1 | exact Nat.le_refl 1
  | fraction =>
    simp only [read, readFraction]
    repeat' split
    all_goals first | exact Nat.zero_le 1 | exact Nat.le_refl 1
  | truth =>
    simp only [read, readTruth]
    repeat' split
    all_goals first | exact Nat.zero_le 1 | exact Nat.le_refl 1
  | quoted =>
    simp only [read, readQuoted]
    repeat' split
    all_goals first | exact Nat.zero_le 1 | exact Nat.le_refl 1
  | pattern token name p group =>
    simp only [read, readGroup]
    repeat' split
    all_goals first | exact Nat.zero_le 1 | exact Nat.le_refl 1
  | finish =>
    simp only [read]
    split
    · exact Nat.le_refl 1
    · exact Nat.zero_le 1
  | anyChar =>
    simp only [read]
    split
    · exact Nat.zero_le 1
    · exact Nat.le_refl 1
  | empty => exact Nat.le_refl 1

theorem finds (t : Terminal) : (Parser.terminal t).Finds t.find := by
  intro r
  have h := t.length_items_read r
  unfold find
  match (t.read r).results.items, h with
  | [], _ => rfl
  | [m], _ => rfl

theorem reaches (rules : Rules) (t : Terminal) (r : Reader) :
    (Parser.terminal t).Reaches rules r (t.find r) := by
  refine ⟨1, fun n hle d s => ?_⟩
  obtain ⟨n, rfl⟩ := Nat.exists_eq_add_one.mpr hle
  exact ⟨t.read r, s.countCall, rfl, t.finds r, trivial⟩

theorem find_rune (c : Char) (token : String) (r : Reader) : (rune c token).find r =
    (r.readRune? c).map fun x => ⟨some (.leaf token (.char c) x.1 x.2.cursor), x.2⟩ := by
  cases h : r.readRune? c with
  | none =>
    simp only [find, read, leafOf, h]
    rfl
  | some x =>
    simp only [find, read, leafOf, h]
    rfl

theorem readsOn_rune (c : Char) (token : String) : ReadsOn (rune c token).find := by
  intro r m hm
  have hmem : m ∈ ((rune c token).read r).results.items := List.mem_of_head? hm
  have hahead := (rune c token).ahead_of_mem_read hmem
  obtain ⟨start, hread⟩ := reader_of_mem_leafOf hmem
  have hlt := Reader.lt_of_readRune? hread
  exact ⟨hahead.source, hlt, hahead.inside hlt⟩

end Terminal

theorem Parser.Finds.run {p : Parser} {find : Reader → Option Match} (h : p.Finds find)
    (rules : Rules) (n : Nat) (d : Tally) (r : Reader) (s : Session) :
    ∃ out s', p.run rules (n + 1) d r s = some (out, s') ∧ out.results.items = (find r).toList ∧
      s.Alike s' := by
  cases p with
  | terminal t => exact ⟨_, _, rfl, h r, .countCall s⟩
  | leaf l =>
    obtain ⟨f, hpure, hf⟩ := h
    refine ⟨f r, s.countCall, ?_, hf r, .countCall s⟩
    show some (l.answer d r s.countCall) = _
    rw [hpure]
  | _ => exact h.elim

theorem kind_alike : Run.Kind Session.Alike := ⟨.refl, .trans, .countCall⟩

theorem Parser.Finds.finds {p : Parser} {find : Reader → Option Match} (h : p.Finds find)
    (rules : Rules) (n : Nat) (r : Reader) :
    Run.Finds Session.Alike (p.run rules (n + 1)) r (find r) := fun d s => h.run rules n d r s

/-- The trail of leaves that find one match. -/
theorem trail_follow (rules : Rules) (n : Nat) {tail : List Parser}
    {finds : List (Reader → Option Match)} (h : List.Forall₂ Parser.Finds tail finds) (r : Reader) :
    Run.Trail Session.Alike (tail.map (Parser.run rules (n + 1))) r (follow finds r) := by
  induction h generalizing r with
  | nil => exact .nil
  | @cons p find tail finds hp _ ih =>
    have hfinds := hp.finds rules n r
    cases hfind : find r with
    | none =>
      rw [follow, hfind]
      exact .stop (hfind ▸ hfinds)
    | some m =>
      rw [follow, hfind]
      exact .go (hfind ▸ hfinds) (ih m.reader)

namespace Run

/-- What the matches of a part are extended to, all joined. `C` is a set in which ends settle the
match. -/
theorem gather_follow {f : Match → Session → Option (Outcome × Session)}
    {grow : Match → Option Match} {C : Match → Prop}
    (hC : ∀ x y, C x → C y → x.stopOffset = y.stopOffset → x = y) :
    ∀ {ms : List Match}, (∀ m ∈ ms, ∀ s, ∃ out s', f m s = some (out, s') ∧
        out.results.items = (grow m).toList ∧ s.Alike s') →
      (∀ m ∈ ms, ∀ x, grow m = some x → C x) → ∀ s, ∃ out s', gather f ms s = some (out, s') ∧
        (∀ x, x ∈ out.results.items ↔ ∃ m ∈ ms, grow m = some x) ∧ s.Alike s'
  | [], _, _, s => ⟨∅, s, rfl, fun x => by simp [show (∅ : Outcome).results = ∅ from rfl], .refl s⟩
  | m :: ms, hf, hgrow, s => by
    obtain ⟨a, s₁, ha, hitems, halike⟩ := hf m List.mem_cons_self s
    obtain ⟨b, s₂, hb, hmem, hbalike⟩ := gather_follow hC
      (fun m' hm' => hf m' (List.mem_cons_of_mem m hm'))
      (fun m' hm' => hgrow m' (List.mem_cons_of_mem m hm')) s₁
    have hamem : ∀ x, x ∈ a.results.items ↔ grow m = some x := by
      intro x
      rw [hitems, Option.mem_toList]
    have hagree : ∀ x ∈ a.results.items, ∀ y ∈ b.results.items, x.stopOffset = y.stopOffset → x = y := by
      intro x hx y hy
      obtain ⟨m', hm', hy⟩ := (hmem y).mp hy
      exact hC x y (hgrow m List.mem_cons_self x ((hamem x).mp hx))
        (hgrow m' (List.mem_cons_of_mem m hm') y hy)
    refine ⟨a ++ b, s₂, gather_cons_eq_some.mpr ⟨a, s₁, b, s₂, ha, hb, rfl⟩, fun x => ?_,
      halike.trans hbalike⟩
    rw [show (a ++ b).results = a.results ++ b.results from rfl, Ascending.mem_append hagree, hamem,
      hmem]
    simp

end Run

namespace Parser

variable {rules : Rules}

/-- A sequence that refuses to recurse. -/
theorem run_sequence_refused {n : Nat} {key : Key} (label : Option String) (build : Builder)
    (accepts : Nat → Bool) (lookup : Nat → Option Nat) (parts : List Parser) {d : Tally} {r : Reader}
    {s s₁ : Session} {id : Nat} (hregister : s.countCall.register key = (id, s₁))
    (hrefuses : Run.refuses d r id = true) :
    ∃ s', (Parser.sequence key label build accepts lookup parts).run rules (n + 1) d r s =
      some (.refused id, s') ∧ s₁.Alike s' := by
  have hrun : (Parser.sequence key label build accepts lookup parts).run rules (n + 1) d r s =
      some (.refused id, s₁.note (.refusal id
        (Parser.sequence key label build accepts lookup parts).name r.cursor)) := by
    rw [run_sequence, Run.sequence_eq_some, hregister]
    exact .inl ⟨hrefuses, rfl⟩
  exact ⟨_, hrun, rfl, fun _ _ => rfl⟩

/-- A sequence whose parts after the first are leaves that find one match: it extends the matches of
the first part, and adds what it remembers. -/
theorem run_sequence_follow {n len : Nat} {key : Key} (label : Option String) {build : Builder}
    {first : Parser} {tail : List Parser} {finds : List (Reader → Option Match)}
    {d : Tally} {r : Reader} {s s₁ s₂ : Session} {id : Nat} {a : Outcome} {C : Match → Prop}
    (hlen : len = tail.length + 1) (htail : List.Forall₂ Parser.Finds tail finds) (hn : len ≤ n)
    (hregister : s.countCall.register key = (id, s₁)) (hrefuses : Run.refuses d r id = false)
    (hfirst : first.run rules (n + 1) (d.inc id) r s₁ = some (a, s₂))
    (hC : ∀ x y, C x → C y → x.stopOffset = y.stopOffset → x = y)
    (hgrow : ∀ m ∈ a.results.items, ∀ x, extend build finds m = some x → C x)
    (hknown : ∀ x ∈ (s₂.memo.known id r.cursor.offset).items, C x) :
    ∃ out s', (Parser.sequence key label build (Draft.between len len) some (first :: tail)).run
        rules (n + 2) d r s = some (out, s') ∧
      (∀ x, x ∈ out.results.items ↔ (∃ m ∈ a.results.items, extend build finds m = some x) ∨
        x ∈ (s₂.memo.known id r.cursor.offset).items) ∧
      s'.memo.keys = s₂.memo.keys ∧
      ∀ id' offset, s'.memo.known id' offset =
        if id = id' ∧ r.cursor.offset = offset then out.results else s₂.memo.known id' offset := by
  subst hlen
  set steps := Parser.steps rules (n + 1) build (Draft.between (tail.length + 1) (tail.length + 1))
    some (first :: tail)
  have hremain : steps.Remain 0 ((first :: tail).map (Parser.run rules (n + 1))) :=
    Run.Steps.remain_of_between (fun _ => List.getElem?_map.symm) (by rw [List.length_map]; rfl)
  have hextend : ∀ m ∈ a.results.items, ∀ s, ∃ out s',
      Run.walkOn steps n (d.inc id) r 0 [] m s = some (out, s') ∧
        out.results.items = (extend build finds m).toList ∧ s.Alike s' := by
    intro m _ s
    have hreverse : (m.node.toList ++ []).reverse = m.node.toList := by cases m.node <;> rfl
    obtain ⟨out, s', hx, hitems, halike⟩ := Run.walk_trail kind_alike
      (trail_follow rules n htail m.reader) (Run.depthsAfter (d.inc id) r m.reader)
      (m.node.toList ++ []) s hremain.tail (by rwa [List.length_map])
    rw [hreverse] at hitems
    exact ⟨out, s', hx, hitems, halike⟩
  obtain ⟨b, s₃, hgather, hb, halike⟩ := Run.gather_follow hC hextend hgrow s₂
  set out := .reports (steps.faultAt r 0 a) a.curtailed ++ b ++ ∅
  have hwalk : Run.walk steps (n + 1) (d.inc id) r 0 [] s₁ = some (out, s₃) := by
    refine Run.walk_succ_eq_some.mpr (.inr ⟨_, a, s₂, b, s₃, rfl, hfirst, hgather, ?_⟩)
    rw [hremain.finishIf_cons]
  have hout : out.results = b.results := by
    simp only [out, Outcome.append_empty]
    rfl
  have hknown₃ := halike.known id r.cursor.offset
  have hagree : ∀ x ∈ out.results.items, ∀ y ∈ (s₂.memo.known id r.cursor.offset).items,
      x.stopOffset = y.stopOffset → x = y := by
    intro x hx y hy
    rw [hout] at hx
    obtain ⟨m, hm, hx⟩ := (hb x).mp hx
    exact hC x y (hgrow m hm x hx) (hknown y hy)
  refine ⟨⟨(s₃.grow id r.cursor.offset out.results).1, out.fault, out.curtailed⟩,
    (s₃.grow id r.cursor.offset out.results).2, ?_, fun x => ?_, ?_, fun id' offset => ?_⟩
  · rw [run_sequence, Run.sequence_eq_some, hregister]
    exact .inr ⟨hrefuses, out, s₃, hwalk, rfl⟩
  · show x ∈ (out.results ++ s₃.memo.known id r.cursor.offset).items ↔ _
    rw [hknown₃, Ascending.mem_append hagree, hout, hb]
  · exact halike.keys
  · rw [Session.known_grow, halike.known id' offset]
    rfl

/-- A choice between a parser that was called and a leaf that finds one match. -/
theorem run_choice_pair {n : Nat} (name : String) {p q : Parser} {find : Reader → Option Match}
    {d : Tally} {r : Reader} {s s₁ : Session} {a : Outcome}
    (hp : p.run rules (n + 1) d r s.countCall = some (a, s₁)) (hq : q.Finds find) :
    ∃ out s', (Parser.choice name [p, q]).run rules (n + 2) d r s = some (out, s') ∧
      out.results.items = (if a.results.items = [] then (find r).toList else a.results.items) ∧
      s₁.Alike s' := by
  cases hmatch : a.isMatch with
  | true =>
    refine ⟨a, s₁, Run.choice_cons_eq_some.mpr ⟨a, s₁, hp, .inl ⟨hmatch, rfl⟩⟩, ?_, .refl s₁⟩
    rw [if_neg (Outcome.items_ne_nil hmatch)]
  | false =>
    obtain ⟨b, s₂, hb, hitems, halike⟩ := hq.run rules n d r s₁.countCall
    have hempty := Outcome.items_eq_nil hmatch
    have hresults : a.results = ∅ := Ascending.ext hempty
    -- whether the leaf matches or not, its matches are all there are
    obtain ⟨c, hc, hcitems⟩ : ∃ c, Run.choice [q.run rules (n + 1)] d r s₁ = some (c, s₂) ∧
        c.results = b.results := by
      cases hb' : b.isMatch with
      | true => exact ⟨b, Run.choice_cons_eq_some.mpr ⟨b, s₂, hb, .inl ⟨hb', rfl⟩⟩, rfl⟩
      | false =>
        refine ⟨b ++ ∅, Run.choice_cons_eq_some.mpr ⟨b, s₂, hb, .inr ⟨hb', ∅, s₂, rfl, rfl⟩⟩, ?_⟩
        rw [Outcome.append_empty]
    refine ⟨a ++ c, s₂, Run.choice_cons_eq_some.mpr ⟨a, s₁, hp, .inr ⟨hmatch, c, s₂, hc, rfl⟩⟩, ?_,
      (Session.Alike.countCall s₁).trans halike⟩
    show (a.results ++ c.results).items = _
    rw [if_pos hempty, hresults, Ascending.empty_append, hcitems, hitems]

end Parser

end Curtail
