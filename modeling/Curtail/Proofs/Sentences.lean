/-
# The end of the text is checked twice

A parse takes the match that reaches the end of the text, and if there is none
it blames the token after the longest match. A sentence does the same to the
outcome of its part. The two checks are written apart from each other, yet the
second finds nothing left to do: of the matches a sentence kept the parse takes
the one it would have taken anyway, and the fault of a sentence that kept none
is the one the parse would have made.

What is left of a sentence at the root is one more call. A parser whose answer
does not depend on the number of calls is therefore parsed alike with and
without it.

Key definitions: `Grammar.Parses`, `Parser.Uncounted`, `Parser.CountsOnly`.
Key theorems: `Grammar.select_atEnd`, `Parser.countsOnly_of_closed`,
`Grammar.parse_sentence`.
-/
import Curtail.Proofs.Reuse
import Curtail.Proofs.Selection

namespace Curtail

/-! ### One check after the other -/

namespace Grammar

variable {name : String} {r : Reader} {out : Outcome} {m : Match}

theorem furthest_some_isSome (f : Fault) (g : Option Fault) :
    ∃ h, Fault.furthest (some f) g = some h := by
  cases g with
  | none => exact ⟨f, rfl⟩
  | some g => exact (ite_eq_or_eq _ _ _).elim (fun h => ⟨g, h⟩) fun h => ⟨f, h⟩

/-- **The second check.** A parse selects from the outcome of a sentence what it would have selected
from the outcome of its part. -/
theorem select_atEnd (name : String) (r : Reader) (out : Outcome) :
    select name r (Run.atEnd out) = select name r out := by
  cases hfind : out.results.items.find? (·.reader.atEnd) with
  | some m =>
    have hkept : (Run.atEnd out).results.items.find? (·.reader.atEnd) = some m := by
      show (out.results.items.filter (·.reader.atEnd)).find? (·.reader.atEnd) = some m
      rw [List.find?_filter]
      simpa using hfind
    rw [select_of_find? hkept, select_of_find? hfind]
  | none =>
    have hshort : ∀ m ∈ out.results.items, m.reader.atEnd = false := by
      simpa [List.find?_eq_none] using hfind
    have hnone : (Run.complete out.results).items = [] := by
      rw [Run.complete, List.filter_eq_nil_iff]
      intro m hm
      simp [hshort m hm]
    have htrailing : Run.trailing? out.results =
        out.results.last?.map (·.reader.token.cursor) := by
      rw [Run.trailing?, Ascending.last?, List.filter_eq_self.mpr fun m hm => by simp [hshort m hm]]
    have hempty : (Run.atEnd out).results.last? = none := by
      show (Run.complete out.results).items.getLast? = none
      rw [hnone]
      rfl
    have hkept : (Run.complete out.results).isEmpty = true := by rw [Ascending.isEmpty, hnone]; rfl
    rw [select_of_empty hempty]
    cases hlast : out.results.last? with
    | none =>
      rw [select_of_empty hlast]
      simp only [Run.atEnd, hkept, htrailing, hlast, Option.map_none, if_true]
    | some last =>
      obtain ⟨f, hf⟩ := furthest_some_isSome (.trailing last.reader.token.cursor) out.fault
      rw [select_of_last? hlast hfind]
      simp only [Run.atEnd, hkept, htrailing, hlast, Option.map_some, if_true, hf, Option.getD_some]

end Grammar

/-! ### Calls that do not count -/

namespace Parser

/-- Whatever the parser answers, with whatever fuel, it also answers after one more call, and it
answers nothing else then. -/
def Uncounted (rules : Rules) (p : Parser) : Prop := ∀ d r s out,
  (∃ n s', p.run rules n d r s.countCall = some (out, s')) ↔
    ∃ n s', p.run rules n d r s = some (out, s')

/-- After one more call the parser answers the same and leaves the same session, but for that call. -/
def CountsOnly (rules : Rules) (p : Parser) : Prop := ∀ n d r s,
  p.run rules n d r s.countCall = (p.run rules n d r s).map fun x => (x.1, x.2.countCall)

variable {rules : Rules} {p : Parser}

theorem CountsOnly.uncounted (h : p.CountsOnly rules) : p.Uncounted rules := by
  refine fun d r s out => exists_congr fun n => ?_
  rw [h n d r s]
  constructor
  · rintro ⟨s', hs'⟩
    obtain ⟨⟨_, t⟩, ht, heq⟩ := Option.map_eq_some_iff.mp hs'
    cases heq
    exact ⟨t, ht⟩
  · rintro ⟨t, ht⟩
    exact ⟨t.countCall, by rw [ht]; rfl⟩

theorem run_sentence_eq (n : Nat) (d : Tally) (r : Reader) (s : Session) :
    run rules (n + 1) (.sentence p) d r s =
      (p.run rules n d r s.countCall).map fun x => (Run.atEnd x.1, x.2) := by
  rw [run_sentence, Run.sentence_eq]

/-- What a sentence answers is what its part answers one call later. -/
theorem exists_run_sentence {d : Tally} {r : Reader} {s : Session} {out : Outcome} :
    (∃ n s', run rules n (.sentence p) d r s = some (out, s')) ↔
      ∃ a, Run.atEnd a = out ∧ ∃ n s', p.run rules n d r s.countCall = some (a, s') := by
  constructor
  · rintro ⟨n, s', h⟩
    cases n with
    | zero => cases h
    | succ n =>
      rw [run_sentence_eq] at h
      obtain ⟨⟨a, t⟩, ht, heq⟩ := Option.map_eq_some_iff.mp h
      cases heq
      exact ⟨a, rfl, n, t, ht⟩
  · rintro ⟨a, rfl, n, t, ht⟩
    exact ⟨n + 1, t, by rw [run_sentence_eq, ht]; rfl⟩

theorem Uncounted.sentence (h : p.Uncounted rules) : (Parser.sentence p).Uncounted rules := by
  intro d r s out
  rw [exists_run_sentence, exists_run_sentence]
  exact exists_congr fun a => and_congr_right fun _ => h d r s.countCall a

end Parser

namespace Session

/-- The session after `k` more calls. -/
def addCalls (s : Session) (k : Nat) : Session :=
  { s with memo := { s.memo with calls := s.memo.calls + k } }

@[simp] theorem addCalls_zero (s : Session) : s.addCalls 0 = s := rfl

theorem countCall_addCalls (s : Session) (k : Nat) :
    (s.addCalls k).countCall = s.countCall.addCalls k := by
  simp only [addCalls, countCall, Memo.countCall, Nat.add_right_comm]

theorem register_addCalls (s : Session) (k : Nat) (key : Key) :
    (s.addCalls k).register key = ((s.register key).1, (s.register key).2.addCalls k) := by
  simp only [addCalls, register, Memo.register]
  cases s.memo.keys.findIdx? (· == key) <;> rfl

end Session

namespace Lockstep

/-! Cuts that are equal are cuts as a lockstep wants them. -/

theorem eq_empty : (∅ : IdSet) = ∅ := rfl

theorem eq_append {a a' b b' : IdSet} (ha : a' = a) (hb : b' = b) : a' ++ b' = a ++ b := by
  rw [ha, hb]

theorem eq_isEmpty {a a' : IdSet} (h : a' = a) : a'.isEmpty = a.isEmpty := by rw [h]

/-- Two runs from sessions that are some calls apart, otherwise the same. -/
def apart (k k' : Nat) : Lockstep where
  At _ := True
  Leads _ _ := True
  Sessions s s' := ∃ t : Session, s = t.addCalls k ∧ s' = t.addCalls k'
  Depths _ _ d _ d' _ := d' = d
  Cuts a a' := a' = a
  leads_refl _ := trivial
  leads_trans _ _ := trivial
  countCall := by
    rintro _ _ ⟨t, rfl, rfl⟩
    exact ⟨t.countCall, t.countCall_addCalls k, t.countCall_addCalls k'⟩
  grow h _ _ := h
  next h _ _ _ := by rw [h]
  lower h := h
  cuts_empty := eq_empty
  cuts_append := eq_append
  cuts_isEmpty := eq_isEmpty

theorem apart_outcomes {k k' : Nat} (r : Reader) (out : Outcome) :
    (apart k k').Outcomes r out out :=
  ⟨rfl, rfl, rfl, fun _ _ => ⟨trivial, trivial⟩⟩

/-- A sequence looks at identities and remembered matches only, not at the number of calls. -/
theorem apart_sequence {k k' n : Nat} {steps steps' : Run.Steps}
    (hsteps : (apart k k').Steps n steps steps') (key : Key) (name : String) :
    (apart k k').Follows n (Run.sequence n key name steps) (Run.sequence n key name steps') := by
  rintro d r _ _ _ out t hr rfl ⟨s, rfl, rfl⟩ h
  have hregister : ∀ j, (s.addCalls j).countCall.register key =
      ((s.countCall.register key).1, (s.countCall.register key).2.addCalls j) := fun j => by
    rw [s.countCall_addCalls, s.countCall.register_addCalls]
  rcases Run.sequence_eq_some.mp h with ⟨hrefused, heq⟩ | ⟨hentered, found, s₁, hwalk, heq⟩
  · rw [hregister] at hrefused heq
    cases heq
    refine ⟨_, _, Run.sequence_eq_some.mpr (.inl ⟨?_, rfl⟩), ?_⟩
    · rw [hregister]
      exact hrefused
    · rw [hregister]
      exact ⟨s.grows_register key, s.grows_register key,
        ⟨(s.countCall.register key).2.note _, rfl, rfl⟩, apart_outcomes r _⟩
  · rw [hregister] at hentered hwalk heq
    cases heq
    obtain ⟨found', s₁', hwalk', hafter⟩ := walk_follows hsteps hr rfl
      ⟨(s.countCall.register key).2, rfl, rfl⟩ hwalk
    obtain ⟨u, rfl, rfl⟩ := hafter.sessions
    obtain rfl := hafter.outcomes.eq hafter.outcomes.cuts
    refine ⟨_, _, Run.sequence_eq_some.mpr (.inr ⟨?_, found', u.addCalls k', ?_, rfl⟩), ?_⟩
    · rw [hregister]
      exact hentered
    · rw [hregister]
      exact hwalk'
    · rw [hregister]
      exact ⟨(s.grows_register key).trans hafter.grows, (s.grows_register key).trans hafter.grows',
        ⟨(u.grow _ _ _).2, rfl, rfl⟩, apart_outcomes r _⟩

variable {rules : Rules} {P : Parser → Prop}

theorem apart_follows (k k' : Nat) (hP : rules.Closed P)
    (hpure : ∀ {l}, P (.leaf l) → ∃ f, l.Pure f) (n : Nat) {p : Parser} (hp : P p) :
    (apart k k').Follows n (p.run rules n) (p.run rules n) := by
  rw [Parser.run_eq_runBy]
  refine runBy_follows hP (fun _ _ => apart_outcomes _ _)
    (fun hl => (hpure hl).imp fun f hf => ⟨hf, fun _ => apart_outcomes _ _⟩)
    (fun {n} _ _ _ _ _ _ hq call => ?_) n p hp
  exact fun d r s d' s' out t hr hd hs h =>
    apart_sequence (steps_follow hP call hq) _ _ hr hd hs h

end Lockstep

/-- A parser over pure leaves does nothing with the number of calls but count on. -/
theorem Parser.countsOnly_of_closed {rules : Rules} {P : Parser → Prop} (hP : rules.Closed P)
    (hpure : ∀ {l}, P (.leaf l) → ∃ f, l.Pure f) {p : Parser} (hp : P p) : p.CountsOnly rules := by
  intro n d r s
  cases h : p.run rules n d r s with
  | some x =>
    obtain ⟨out, t⟩ := x
    obtain ⟨out', _, h', hafter⟩ := Lockstep.apart_follows 0 1 hP hpure n hp trivial rfl
      ⟨s, rfl, rfl⟩ h
    obtain ⟨u, rfl, rfl⟩ := hafter.sessions
    obtain rfl := hafter.outcomes.eq hafter.outcomes.cuts
    exact h'
  | none =>
    cases h' : p.run rules n d r s.countCall with
    | none => rfl
    | some x =>
      obtain ⟨_, _, hback, -⟩ := Lockstep.apart_follows 1 0 hP hpure n hp trivial rfl
        ⟨s, rfl, rfl⟩ h'
      rw [s.addCalls_zero, h] at hback
      cases hback

/-! ### Sentences at the root -/

namespace Grammar

variable {rules : Rules} {p : Parser} {r : Reader} {s : Session} {result : Except Fault Match}

/-- What a parse of the whole text comes to, with whatever fuel is enough. -/
def Parses (g : Grammar) (r : Reader) (s : Session) (result : Except Fault Match) : Prop :=
  ∃ n s', g.parseWithin n r s = some (result, s')

/-- The session in which a parse calls the root. -/
def opened (g : Grammar) (r : Reader) (s : Session) : Session :=
  (s.note (.starting g.name r.cursor)).forget

theorem parseWithin_eq (g : Grammar) (n : Nat) (r : Reader) (s : Session) :
    g.parseWithin n r s = (g.root.run g.rules n .zero r (g.opened r s)).map fun x =>
      (select g.name r x.1, noteRefusals x.1 x.2) := rfl

theorem parses_iff {g : Grammar} : g.Parses r s result ↔
    ∃ out, select g.name r out = result ∧
      ∃ n s', g.root.run g.rules n .zero r (g.opened r s) = some (out, s') := by
  constructor
  · rintro ⟨n, s', h⟩
    obtain ⟨⟨out, t⟩, ht, heq⟩ := Option.map_eq_some_iff.mp h
    cases heq
    exact ⟨out, rfl, n, t, ht⟩
  · rintro ⟨out, rfl, n, t, ht⟩
    exact ⟨n, noteRefusals out t, by rw [parseWithin_eq, ht]; rfl⟩

/-- A parse comes to one result. -/
theorem Parses.unique {g : Grammar} {result' : Except Fault Match} (h : g.Parses r s result)
    (h' : g.Parses r s result') : result = result' := by
  obtain ⟨out, rfl, n, t, ht⟩ := parses_iff.mp h
  obtain ⟨out', rfl, n', t', ht'⟩ := parses_iff.mp h'
  cases Parser.run_unique ht ht'
  rfl

theorem parses_sentence_iff (hp : p.Uncounted rules) :
    Parses ⟨rules, .sentence p⟩ r s result ↔ Parses ⟨rules, p⟩ r s result := by
  rw [parses_iff, parses_iff]
  have hroot : ∀ out, (∃ n s', Parser.run rules n (.sentence p) .zero r
      (opened ⟨rules, p⟩ r s) = some (out, s')) ↔
      ∃ a, Run.atEnd a = out ∧ ∃ n s', p.run rules n .zero r (opened ⟨rules, p⟩ r s) =
        some (a, s') := fun out => by
    rw [Parser.exists_run_sentence]
    exact exists_congr fun a => and_congr_right fun _ => hp _ _ _ a
  constructor
  · rintro ⟨out, rfl, hout⟩
    obtain ⟨a, rfl, ha⟩ := (hroot out).mp hout
    exact ⟨a, (select_atEnd _ r a).symm, ha⟩
  · rintro ⟨a, rfl, ha⟩
    exact ⟨Run.atEnd a, select_atEnd _ r a, (hroot _).mpr ⟨a, rfl, ha⟩⟩

theorem noteRefusals_countCall (out : Outcome) (s : Session) :
    noteRefusals out s.countCall = (noteRefusals out s).countCall := by
  unfold noteRefusals
  split <;> rfl

/-- A sentence at the root costs one call and one level of fuel. -/
theorem parseWithin_sentence (hp : p.CountsOnly rules) (n : Nat) (r : Reader) (s : Session) :
    parseWithin ⟨rules, .sentence p⟩ (n + 1) r s =
      (parseWithin ⟨rules, p⟩ n r s).map fun x => (x.1, x.2.countCall) := by
  have hroot : Parser.run rules (n + 1) (.sentence p) .zero r (opened ⟨rules, .sentence p⟩ r s) =
      (p.run rules n .zero r (opened ⟨rules, p⟩ r s)).map fun x => (Run.atEnd x.1, x.2.countCall) := by
    rw [Parser.run_sentence_eq]
    show (p.run rules n .zero r (opened ⟨rules, p⟩ r s).countCall).map _ = _
    rw [hp, Option.map_map]
    rfl
  rw [parseWithin_eq, parseWithin_eq, hroot, Option.map_map, Option.map_map]
  congr 1
  funext x
  show (select p.name r (Run.atEnd x.1), noteRefusals x.1 x.2.countCall) =
    (select p.name r x.1, (noteRefusals x.1 x.2).countCall)
  rw [select_atEnd, noteRefusals_countCall]

theorem fuel_lt_fuel_sentence (rules : Rules) (p : Parser) (r : Reader) :
    fuel ⟨rules, p⟩ r < fuel ⟨rules, .sentence p⟩ r := by
  have hsize : ((Grammar.weight ⟨rules, p⟩ + 8) * (r.source.limit + 8)) <
      ((Grammar.weight ⟨rules, .sentence p⟩ + 8) * (r.source.limit + 8)) := by
    refine Nat.mul_lt_mul_of_pos_right ?_ (Nat.succ_pos _)
    simp only [weight, weightAll, Parser.weight]
    omega
  exact Nat.mul_lt_mul_of_pos_left (Nat.mul_self_lt_mul_self hsize) (by decide)

/-- **A sentence at the root changes nothing.** If the answer of a parser does not depend on the number
of calls, a sentence of it is parsed to the same match or the same fault, and so is a sentence of that
sentence. If the number of calls does not matter otherwise either, the session after the parse is the
same but for one more call. -/
theorem parse_sentence (hp : p.Uncounted rules) (r : Reader) (s : Session) :
    (∀ result, Parses ⟨rules, .sentence p⟩ r s result ↔ Parses ⟨rules, p⟩ r s result) ∧
      (∀ result, Parses ⟨rules, .sentence (.sentence p)⟩ r s result ↔
        Parses ⟨rules, .sentence p⟩ r s result) ∧
      (∀ result result' t t', parse ⟨rules, .sentence p⟩ r s = some (result, t) →
        parse ⟨rules, p⟩ r s = some (result', t') → result = result') ∧
      (p.CountsOnly rules → ∀ result t, parse ⟨rules, p⟩ r s = some (result, t) →
        parse ⟨rules, .sentence p⟩ r s = some (result, t.countCall)) := by
  refine ⟨fun _ => parses_sentence_iff hp, fun _ => parses_sentence_iff hp.sentence, ?_, ?_⟩
  · intro result result' t t' h h'
    have hsentence : Parses ⟨rules, .sentence p⟩ r s result := ⟨_, t, h⟩
    have hpart : Parses ⟨rules, p⟩ r s result' := ⟨_, t', h'⟩
    exact Parses.unique ((parses_sentence_iff hp).mp hsentence) hpart
  · intro hcounts result t h
    have hone : parseWithin ⟨rules, .sentence p⟩ (fuel ⟨rules, p⟩ r + 1) r s =
        some (result, t.countCall) := by
      rw [parseWithin_sentence hcounts, ← parse_eq_parseWithin, h]
      rfl
    rw [parse_eq_parseWithin]
    rw [parseWithin_eq] at hone ⊢
    obtain ⟨x, hx, heq⟩ := Option.map_eq_some_iff.mp hone
    rw [Parser.run_mono (fuel_lt_fuel_sentence rules p r) hx, Option.map_some, heq]

/-- A leaf that ends before, at and past the end of any short text, and reports a fault and a
refusal. -/
def straying : Leaf where
  name := "straying"
  answer _ r s := (Answer.outcome ⟨[(⟨1, 1, 2⟩, none), (⟨5, 1, 6⟩, none), (⟨90, 1, 91⟩, none),
    (⟨91, 1, 92⟩, none)], some (.expecting ⟨3, 1, 4⟩ "more"), [0]⟩ r, s)

/-- Sums of the letter `a` nested to the left, or whatever `straying` answers. -/
def strayingSums : Grammar where
  rules := letterSums.rules
  root := .choice "text" [.sequence ⟨1⟩ none (.select 0) (Draft.between 2 2) some
    [.rule ⟨0, "sum", true⟩, .terminal .empty], .leaf straying]

theorem strayingSums_sentence :
    (strayingSums.root.Uncounted strayingSums.rules ∧
        strayingSums.root.CountsOnly strayingSums.rules) ∧
      (∀ result, Parses ⟨strayingSums.rules, .sentence strayingSums.root⟩ (Reader.ofText "a+a+a" true)
          (usedSession (Reader.ofText "a+a+a" true)) result ↔
        Parses strayingSums (Reader.ofText "a+a+a" true)
          (usedSession (Reader.ofText "a+a+a" true)) result) ∧
      ∀ result t, strayingSums.parse (Reader.ofText "a+a+a" true)
          (usedSession (Reader.ofText "a+a+a" true)) = some (result, t) →
        parse ⟨strayingSums.rules, .sentence strayingSums.root⟩ (Reader.ofText "a+a+a" true)
          (usedSession (Reader.ofText "a+a+a" true)) = some (result, t.countCall) := by
  have hpure : ∀ {l}, Parser.leaf l ∈ strayingSums.members → ∃ f, l.Pure f := by
    intro l hl
    have hleaf : l = straying ∨ l = .ofTerminal (.rune 'a' "A") := by
      simpa [strayingSums, letterSums, members, Rules.definitions, Parser.members, membersAll] using hl
    rcases hleaf with rfl | rfl
    · exact ⟨_, fun _ _ _ => rfl⟩
    · exact ⟨_, Leaf.pure_ofTerminal _⟩
  have hcounts : strayingSums.root.CountsOnly strayingSums.rules :=
    Parser.countsOnly_of_closed strayingSums.closed_members hpure strayingSums.root_mem_members
  generalize Reader.ofText "a+a+a" true = r
  have h := parse_sentence hcounts.uncounted r (usedSession r)
  exact ⟨⟨hcounts.uncounted, hcounts⟩, h.1, h.2.2.2 hcounts⟩

end Grammar

end Curtail
