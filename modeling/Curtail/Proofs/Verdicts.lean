/-
# The verdict on a whole text

The root of a grammar may match a text in several ways. All of its matches were
reached by reading on from the first token, so none ends behind the end of the
text, and as no two end at one place, the match that reaches the end is alone
and the last. A parse selects it. If there is none, the token after the longest
match is to blame, which is the furthest of the tokens after any match, unless a
fault was seen there or further on; and if nothing matched at all, only the
fault is left, or that the root was expected. If all rules are defined, it is
always the text that is at fault.

Key definitions: `Reader.Leads`, `Grammar.Verdict`, `Fault.OfText`.
Key theorems: `Reader.offset_token_mono`, `Parser.leads_of_run`,
`Grammar.fault_ofText`, `Grammar.parse_verdict`.
-/
import Curtail.Proofs.Conservative
import Curtail.Proofs.Positions
import Curtail.Proofs.Sentences

namespace Curtail

open Text

/-! ### Tokens further on -/

/-- What is left of a run of characters after some of them. -/
theorem length_takeWhile_drop (p : Char → Bool) : ∀ {n : Nat} {cs : List Char},
    n ≤ (cs.takeWhile p).length → ((cs.drop n).takeWhile p).length = (cs.takeWhile p).length - n
  | 0, _, _ => rfl
  | n + 1, [], h => by cases h
  | n + 1, c :: cs, h => by
    by_cases hc : p c = true
    · rw [List.takeWhile_cons_of_pos hc, List.length_cons] at h ⊢
      rw [List.drop_succ_cons, length_takeWhile_drop p (Nat.le_of_succ_le_succ h),
        Nat.add_sub_add_right]
    · rw [List.takeWhile_cons_of_neg hc] at h
      cases h

namespace Reader

variable {r r' r'' : Reader}

/-- Reading leads from `r` to `r'`. -/
def Leads (r r' : Reader) : Prop := ∃ n, r' = r.skip n

theorem Leads.refl (r : Reader) : r.Leads r := ⟨0, r.skip_zero.symm⟩

theorem Leads.trans (h : r.Leads r') (h' : r'.Leads r'') : r.Leads r'' := by
  obtain ⟨m, rfl⟩ := h
  obtain ⟨n, rfl⟩ := h'
  exact ⟨m + n, r.skip_skip m n⟩

theorem Leads.ahead (h : r.Leads r') : r.Ahead r' := by
  obtain ⟨n, rfl⟩ := h
  exact r.ahead_skip n

theorem Leads.offset_le_limit (h : r.Leads r') (hr : r.cursor.offset ≤ r.source.limit) :
    r'.cursor.offset ≤ r.source.limit := by
  rcases Nat.lt_or_eq_of_le h.ahead.le with hlt | heq
  · exact h.ahead.inside hlt
  · rwa [← heq]

/-- Reading on, the next token comes no earlier. -/
theorem Leads.offset_token_le (h : r.Leads r') :
    r.token.cursor.offset ≤ r'.token.cursor.offset := by
  obtain ⟨n, rfl⟩ := h
  rcases Nat.le_total r.toToken n with hle | hle
  · -- the token was passed
    have hskip : r.skip n = r.token.skip (n - r.toToken) := by
      rw [token_eq_skip, skip_skip, Nat.add_sub_cancel' hle]
    rw [hskip]
    exact (r.token.ahead_skip _).le.trans (Reader.ahead_token _).le
  · -- only blanks were read, and the same token comes next
    have hleft : (r.skip n).toToken = r.toToken - n := by
      unfold toToken at hle ⊢
      rw [source_skip]
      split
      · rename_i hskips
        rw [if_pos hskips] at hle
        exact length_takeWhile_drop isBlank hle
      · exact (Nat.zero_sub n).symm
    rw [token_eq_skip (r.skip n), hleft, skip_skip, Nat.add_sub_cancel' hle, ← token_eq_skip]

/-- Of two places that reading leads to, the one further on has the token further on. -/
theorem offset_token_mono (h' : r.Leads r') (h'' : r.Leads r'')
    (hle : r'.cursor.offset ≤ r''.cursor.offset) :
    r'.token.cursor.offset ≤ r''.token.cursor.offset := by
  obtain ⟨m, rfl⟩ := h'
  obtain ⟨n, rfl⟩ := h''
  rcases Nat.le_total m n with hmn | hnm
  · have hon : (r.skip m).Leads (r.skip n) := ⟨n - m, by rw [skip_skip, Nat.add_sub_cancel' hmn]⟩
    exact hon.offset_token_le
  · have hback : (r.skip n).Leads (r.skip m) := ⟨m - n, by rw [skip_skip, Nat.add_sub_cancel' hnm]⟩
    rw [Rules.skip_ext_offset (Nat.le_antisymm hle hback.ahead.le)]

end Reader

/-! ### Where matches end -/

/-- All that is remembered ends where reading leads from `start`. -/
def Session.LedFrom (start : Reader) (s : Session) : Prop :=
  ∀ id offset, ∀ m ∈ (s.memo.known id offset).items, start.Leads m.reader

variable {rules : Rules} {P : Parser → Prop}

/-- Being led to by reading is passed on by all combinators. -/
theorem respects_leads (hP : rules.Closed P) (hleaf : ∀ l, ¬ P (.leaf l)) (start : Reader) :
    rules.Respects P (Session.LedFrom start) start.Leads (fun _ _ _ => True) where
  closed := hP
  kept := Run.kept_forall
  terminal {t _ _} _ hr hm := ⟨hr.trans (t.skip_of_mem_read hm), trivial⟩
  leaf hl := absurd hl (hleaf _)
  choice _ _ := trivial
  sequence _ := trivial
  repetition _ := trivial
  sentence _ _ := trivial
  orEmpty _ := trivial
  emptyGroup := trivial
  rule _ _ := trivial
  memory {_ _ _ _ _ _} _ r _ id _ _ hs _ hfound :=
    ⟨Session.forall_grow hs fun m hm => (hfound m hm).1,
      fun m hm => ⟨hs id r.cursor.offset m hm, trivial⟩⟩

theorem Reader.ledFrom_forget (r : Reader) (s : Session) : s.forget.LedFrom r :=
  Session.forall_of_forgotten s.known_forget

/-- A call that starts with nothing remembered finds matches that reading leads to. -/
theorem Parser.leads_of_run (hP : rules.Closed P) (hleaf : ∀ l, ¬ P (.leaf l)) {p : Parser} (hp : P p)
    {n : Nat} {d : Tally} {r : Reader} {s s' : Session} {out : Outcome}
    (h : p.run rules n d r s.forget = some (out, s')) :
    ∀ m ∈ out.results.items, r.Leads m.reader := by
  have hyields := Parser.run_yields (respects_leads hP hleaf r) n hp (.refl r) (r.ledFrom_forget s) h
  exact fun m hm => (hyields.found m hm).1

/-! ### Verdicts -/

/-- What is to blame if the text goes on at `p` and a fault may have been seen: that fault if it lies
there or further on, else the text that goes on. -/
theorem Fault.furthest_trailing (p : Position) (seen? : Option Fault) :
    (∃ seen q, seen? = some seen ∧ seen.place? = some q ∧ p.offset ≤ q.offset ∧
      Fault.furthest (some (.trailing p)) seen? = some seen) ∨
    ((∀ seen q, seen? = some seen → seen.place? = some q → q.offset < p.offset) ∧
      Fault.furthest (some (.trailing p)) seen? = some (.trailing p)) := by
  have hdepth : (Fault.trailing p).depth = p.offset + 1 := rfl
  cases seen? with
  | none => exact .inr ⟨nofun, rfl⟩
  | some seen =>
    by_cases hle : (Fault.trailing p).depth ≤ seen.depth
    · cases hplace : seen.place? with
      | none =>
        have hzero : seen.depth = 0 := by rw [Fault.depth, hplace]; rfl
        omega
      | some q =>
        have hq : seen.depth = q.offset + 1 := by rw [Fault.depth, hplace]; rfl
        exact .inl ⟨seen, q, rfl, hplace, by omega, if_pos hle⟩
    · refine .inr ⟨?_, if_neg hle⟩
      rintro _ q ⟨⟩ hplace
      have hq : seen.depth = q.offset + 1 := by rw [Fault.depth, hplace]; rfl
      omega

/-- The text is at fault, neither the grammar nor an interpreter. -/
def Fault.OfText : Fault → Prop
  | .parse _ _ | .trailing _ => True
  | .eval _ _ | .grammar _ => False

/-- A terminal only finds fault with the text. -/
theorem Terminal.fault_ofText {t : Terminal} {r : Reader} {f : Fault}
    (h : (t.read r).fault = some f) : f.OfText := by
  obtain ⟨x, hx⟩ := t.exists_reading r
  rw [hx r (.refl r)] at h
  cases x <;> cases h
  trivial

namespace Grammar

variable {g : Grammar} {name : String} {r : Reader} {out : Outcome}

/-- What a parse has to make of the outcome of its root at `r`, the root being called `name`. -/
structure Verdict (name : String) (r : Reader) (out : Outcome) (result : Except Fault Match) :
    Prop where
  /-- Only the last match can reach the end of the text, and then it is selected. -/
  complete : ∀ m ∈ out.results.items, m.reader.atEnd = true →
    out.results.last? = some m ∧ result = .ok m
  /-- If there are matches but none reaches the end, the last is the longest. To blame is the text
  after it, or the fault of the outcome if that lies there or further on; either way no token after a
  match comes later than the place that is blamed. -/
  trailing : out.results.items ≠ [] → (∀ m ∈ out.results.items, m.reader.atEnd = false) →
    ∃ last f place, out.results.last? = some last ∧ result = .error f ∧ f.place? = some place ∧
      (∀ m ∈ out.results.items, m.stopOffset ≤ last.stopOffset ∧
        m.reader.token.cursor.offset ≤ place.offset) ∧
      ((out.fault = some f ∧ last.reader.token.cursor.offset ≤ place.offset) ∨
        (f = .trailing last.reader.token.cursor ∧ ∀ seen q, out.fault = some seen →
          seen.place? = some q → q.offset < last.reader.token.cursor.offset))
  /-- Without a match the fault of the outcome is left, or that the root was expected. -/
  empty : out.results.items = [] →
    result = .error (out.fault.getD (.expecting r.token.cursor name))

/-- The fault of a parse is that of the outcome, or that something else was expected or went on. -/
theorem select_error {B : Fault → Prop} {f : Fault} (hown : ∀ f, out.fault = some f → B f)
    (hexpecting : B (.expecting r.token.cursor name)) (htrailing : ∀ p, B (.trailing p))
    (h : select name r out = .error f) : B f := by
  cases hlast : out.results.last? with
  | none =>
    rw [select_of_empty hlast] at h
    obtain rfl := Except.error.inj h
    cases hfault : out.fault with
    | none => exact hexpecting
    | some seen => exact hown seen hfault
  | some last =>
    cases hfind : out.results.items.find? (·.reader.atEnd) with
    | some m =>
      rw [select_of_find? hfind] at h
      cases h
    | none =>
      rw [select_of_last? hlast hfind] at h
      obtain rfl := Except.error.inj h
      obtain ⟨seen, -, hseen, -, -, hfault⟩ | ⟨-, hfault⟩ :=
        Fault.furthest_trailing last.reader.token.cursor out.fault
      · rw [hfault]
        exact hown seen hseen
      · rw [hfault]
        exact htrailing _

/-- Of matches that reading leads to from within the text, `select` gives the verdict. -/
theorem select_verdict (hr : r.cursor.offset ≤ r.source.limit)
    (hleads : ∀ m ∈ out.results.items, r.Leads m.reader) :
    Verdict name r out (select name r out) where
  complete m hm hend := by
    refine ⟨?_, select_eq_ok hm hend fun x hx => (hleads x hx).ahead⟩
    obtain ⟨last, hlast, hmem, hle⟩ := Ascending.exists_last (List.ne_nil_of_mem hm)
    have hinside := (hleads last hmem).offset_le_limit hr
    rw [Reader.atEnd_iff, (hleads m hm).ahead.source] at hend
    have hsame : m = last :=
      Ascending.eq_of_key_eq hm hmem (Nat.le_antisymm (hle m hm) (hinside.trans hend))
    rw [hsame]
    exact hlast
  trailing hne hshort := by
    obtain ⟨last, hlast, hmem, hle⟩ := Ascending.exists_last hne
    have hnone : out.results.items.find? (·.reader.atEnd) = none :=
      List.find?_eq_none.mpr fun m hm => by simp [hshort m hm]
    have htoken : ∀ m ∈ out.results.items,
        m.reader.token.cursor.offset ≤ last.reader.token.cursor.offset := fun m hm =>
      Reader.offset_token_mono (hleads m hm) (hleads last hmem) (hle m hm)
    rw [select_of_last? hlast hnone]
    obtain ⟨seen, q, hseen, hplace, hq, hfault⟩ | ⟨hbefore, hfault⟩ :=
      Fault.furthest_trailing last.reader.token.cursor out.fault
    · rw [hfault]
      exact ⟨last, seen, q, hlast, rfl, hplace,
        fun m hm => ⟨hle m hm, (htoken m hm).trans hq⟩, .inl ⟨hseen, hq⟩⟩
    · rw [hfault]
      exact ⟨last, _, last.reader.token.cursor, hlast, rfl, rfl,
        fun m hm => ⟨hle m hm, htoken m hm⟩, .inr ⟨rfl, hbefore⟩⟩
  empty hnone := select_of_empty (by rw [Ascending.last?, hnone]; rfl)

/-- **Every parse of a text comes to its verdict**, whatever matches and faults the root of a grammar
without leaves of its own comes to, and however much fuel it took. A guarded grammar whose sequences
have an end comes to a verdict. -/
theorem parse_verdict (hleaf : ∀ l, .leaf l ∉ g.members) (text : String) (skipsBlanks : Bool)
    (s : Session) :
    (∀ n out t, g.root.run g.rules n .zero (.ofText text skipsBlanks)
        (g.opened (.ofText text skipsBlanks) s) = some (out, t) →
      ∃ result, g.parseWithin n (.ofText text skipsBlanks) s = some (result, noteRefusals out t) ∧
        Verdict g.name (.ofText text skipsBlanks) out result) ∧
    (g.Guarded → (∀ p ∈ g.members, p.Bounded) → ∃ out t result,
      g.call .zero (.ofText text skipsBlanks) (g.opened (.ofText text skipsBlanks) s) =
          some (out, t) ∧
        g.parse (.ofText text skipsBlanks) s = some (result, noteRefusals out t) ∧
        Verdict g.name (.ofText text skipsBlanks) out result) := by
  have hverdict : ∀ n out t, g.root.run g.rules n .zero (.ofText text skipsBlanks)
      (g.opened (.ofText text skipsBlanks) s) = some (out, t) →
      ∃ result, g.parseWithin n (.ofText text skipsBlanks) s = some (result, noteRefusals out t) ∧
        Verdict g.name (.ofText text skipsBlanks) out result := by
    intro n out t hrun
    have hinside : (Reader.ofText text skipsBlanks).cursor.offset ≤
        (Reader.ofText text skipsBlanks).source.limit := by
      obtain ⟨⟨hsource, -⟩, hle⟩ := Reader.inside_iff.mp (Reader.inside_ofText text skipsBlanks)
      rwa [hsource]
    have hleads := Parser.leads_of_run g.closed_members hleaf g.root_mem_members hrun
    refine ⟨_, ?_, select_verdict hinside hleads⟩
    rw [parseWithin_eq, hrun, Option.map_some]
  refine ⟨hverdict, fun hguarded hbounded => ?_⟩
  obtain ⟨⟨out, t⟩, hrun⟩ := root_answers hguarded hbounded
    (filed_forget _ (s.note (.starting g.name (Reader.ofText text skipsBlanks).cursor)))
  obtain ⟨result, hresult, h⟩ := hverdict _ out t hrun
  exact ⟨out, t, result, hrun, hresult, h⟩

/-- A grammar without leaves of its own all of whose rules are defined only finds fault with the text. -/
theorem fault_ofText (hleaf : ∀ l, .leaf l ∉ g.members)
    (hdefined : ∀ h, .rule h ∈ g.members → ∃ q, g.rules.state h.id = .defined q) {s s' : Session}
    {f : Fault} (h : g.parse r s = some (.error f, s')) : f.OfText := by
  obtain ⟨⟨out, t⟩, hrun, heq⟩ := Option.map_eq_some_iff.mp h
  obtain ⟨hselect, -⟩ := Prod.mk.inj heq
  have hblame : g.rules.Blame (· ∈ g.members) (Session.LedFrom r) r.Leads Fault.OfText := {
    terminal := fun _ _ hf => Terminal.fault_ofText hf
    leaf := fun hl => absurd hl (hleaf _)
    expecting := fun _ _ _ => trivial
    trailing := fun _ _ => trivial
    undefined := fun handle hh hstate => by
      obtain ⟨q, hq⟩ := hdefined handle hh
      rw [hq] at hstate
      cases hstate
    dropped := fun handle hh hstate => by
      obtain ⟨q, hq⟩ := hdefined handle hh
      rw [hq] at hstate
      cases hstate }
  have hrespects := respects_leads g.closed_members hleaf r
  have hown := (Parser.run_blames g.closed_members hrespects.kept hblame
    (Parser.run_yields hrespects) _ g.root_mem_members (.refl r) (r.ledFrom_forget _) hrun).fault
  exact select_error hown trivial (fun _ => trivial) hselect

/-- A sum that goes on after its longest match. -/
theorem parse_verdict_hiddenRecursion :
    (∀ l, .leaf l ∉ hiddenRecursion.members) ∧ hiddenRecursion.Guarded ∧
    (∀ p ∈ hiddenRecursion.members, p.Bounded) ∧
    ∃ out t result, hiddenRecursion.parse (.ofText "a+a b" true) .fresh =
        some (result, noteRefusals out t) ∧
      Verdict "sum" (.ofText "a+a b" true) out result := by
  have hleaf : ∀ l, .leaf l ∉ hiddenRecursion.members := by
    simp [hiddenRecursion, members, Rules.definitions, Parser.members, membersAll]
  obtain ⟨out, t, result, -, hparse, h⟩ := (parse_verdict hleaf "a+a b" true .fresh).2
    hiddenRecursion_guarded hiddenRecursion_bounded
  exact ⟨hleaf, hiddenRecursion_guarded, hiddenRecursion_bounded, out, t, result, hparse, h⟩

end Grammar

end Curtail
