/-
# Blanks around a text

Where blanks are skipped, blanks before and after a text change nothing: those
after it are not read at all, and those before it are skipped before the first
token, so that the text itself is read from a place further on. Whatever a
grammar makes of the text is the same there, except that faults happen as many
bytes further on as there are in front.

If the text has nothing but blanks, there is nothing to read however many of
them there are, and places stay as they are.

An interpreter may raise a fault anywhere it likes, also at a fixed place.
Apart from such faults, a fault of an evaluation is one of the parse.

Key definitions: `Text.shift`, `Grammar.ParsesMoved`, `Grammar.ValuesMoved`,
`Grammar.evaluateTextWithin`, `Grammar.refusedLetter`.
Key theorems: `Reader.ofText_moved`, `Grammar.parseWithin_moved`,
`Grammar.evaluateText_padded`.
-/
import Curtail.Grammar.Draft
import Curtail.Node.Interpreter
import Curtail.Proofs.Letters
import Curtail.Proofs.Moved
import Curtail.Proofs.Reuse
import Mathlib.Data.List.TakeWhile

namespace Curtail

open Text

/-! ### Blanks at the ends of a text -/

namespace Text

/-- By how many bytes blanks in front of a text move what is read of it. -/
def shift (before text : List Char) : Nat := if text.all isBlank then 0 else byteLength before

variable {before text after : List Char}

theorem trimEnd_append_blanks (hafter : ∀ c ∈ after, isBlank c = true) :
    trimEnd (text ++ after) = trimEnd text := by
  rw [trimEnd, List.reverse_append, List.dropWhile_append_of_pos (by simpa using hafter), trimEnd]

theorem trimEnd_eq_nil_iff : trimEnd text = [] ↔ ∀ c ∈ text, isBlank c = true := by
  simp [trimEnd, List.dropWhile_eq_nil_iff]

theorem trimEnd_append_of_ne_nil (h : trimEnd text ≠ []) :
    trimEnd (before ++ text) = before ++ trimEnd text := by
  have hleft : ¬ (text.reverse.dropWhile isBlank).isEmpty = true := by
    simpa [trimEnd] using h
  rw [trimEnd, List.reverse_append, List.dropWhile_append, if_neg hleft, trimEnd,
    List.reverse_append, List.reverse_reverse]

/-- What is readable of a text with blanks around it has the readable part of the text at its end,
after blanks. -/
theorem exists_trimEnd_padded (text : List Char) (hbefore : ∀ c ∈ before, isBlank c = true)
    (hafter : ∀ c ∈ after, isBlank c = true) :
    ∃ front, (∀ c ∈ front, isBlank c = true) ∧ byteLength front = shift before text ∧
      trimEnd (before ++ text ++ after) = front ++ trimEnd text := by
  rw [trimEnd_append_blanks hafter]
  -- Of a text of blanks nothing is readable, and then nothing of the blanks in front either.
  by_cases hblank : text.all isBlank = true
  · have htext : ∀ c ∈ text, isBlank c = true := List.all_eq_true.mp hblank
    refine ⟨[], nofun, ?_, ?_⟩
    · rw [shift, if_pos hblank]
      rfl
    · rw [trimEnd_append_blanks htext, trimEnd_eq_nil_iff.mpr hbefore, trimEnd_eq_nil_iff.mpr htext]
      rfl
  · refine ⟨before, hbefore, (if_neg hblank).symm, trimEnd_append_of_ne_nil ?_⟩
    rwa [ne_eq, trimEnd_eq_nil_iff, ← List.all_eq_true]

end Text

namespace Reader

theorem offset_ofText (text : String) :
    (ofText text true).cursor.offset = byteLength ((trimEnd text.toList).takeWhile isBlank) := by
  have hstart : (ofText text true).cursor = Position.start.advanceAll
      ((trimEnd text.toList).take ((trimEnd text.toList).takeWhile isBlank).length) := rfl
  rw [hstart, offset_advanceAll, ← List.prefix_iff_eq_take.mp (List.takeWhile_prefix isBlank)]
  exact Nat.zero_add _

theorem limit_ofText (text : String) :
    (ofText text true).source.limit = byteLength (trimEnd text.toList) := rfl

variable (text : String) {before after : String} (hbefore : ∀ c ∈ before.toList, isBlank c = true)
  (hafter : ∀ c ∈ after.toList, isBlank c = true)

include hbefore hafter in
/-- With blanks around it a text is read from a place further on. -/
theorem ofText_moved : (ofText text true).Moved (shift before.toList text.toList)
    (ofText (before ++ text ++ after) true) := by
  obtain ⟨front, hfront, hlength, htrim⟩ := exists_trimEnd_padded text.toList hbefore hafter
  rw [← String.toList_append, ← String.toList_append] at htrim
  have hoffset : (ofText (before ++ text ++ after) true).cursor.offset =
      (ofText text true).cursor.offset + shift before.toList text.toList := by
    rw [offset_ofText, offset_ofText, htrim, List.takeWhile_append_of_pos hfront, byteLength_append,
      hlength]
    omega
  refine ⟨⟨rfl, ?_, ?_⟩, hoffset⟩
  · rw [rest_ofText, rest_ofText, if_pos rfl, if_pos rfl, htrim,
      List.dropWhile_append_of_pos hfront]
  · rw [remaining, remaining, hoffset, limit_ofText, limit_ofText, htrim, byteLength_append, hlength]
    omega

include hbefore hafter in
theorem limit_ofText_padded :
    (ofText text true).source.limit ≤ (ofText (before ++ text ++ after) true).source.limit := by
  obtain ⟨front, -, -, htrim⟩ := exists_trimEnd_padded text.toList hbefore hafter
  rw [limit_ofText, limit_ofText, String.toList_append, String.toList_append, htrim,
    byteLength_append]
  exact Nat.le_add_left _ _

end Reader

/-! ### Parsing and evaluation -/

namespace Grammar

/-- The same match or the same fault, `w` bytes further on. -/
inductive ParsesMoved (Q : Interpreter → Prop) (w : Nat) :
    Except Fault Match → Except Fault Match → Prop
  | ok {m m' : Match} : m.Moved Q w m' → ParsesMoved Q w (.ok m) (.ok m')
  | error {f f' : Fault} : f.Moved w f' → ParsesMoved Q w (.error f) (.error f')

/-- Equal values, or the same fault but for its place; and that is `w` bytes further on, unless an
interpreter in `Q` raised the fault. -/
structure ValuesMoved (Q : Interpreter → Prop) (w : Nat) (x x' : Except Fault Value) : Prop where
  same : SameResult x x'
  moved : ∀ f f', x = .error f → x' = .error f' → f.Moved w f' ∨ ∃ i, Q i ∧ i.Raises f

/-- Evaluates a text with some fuel and a memo of its own. -/
def evaluateTextWithin (g : Grammar) (n : Nat) (ctx : Context) (text : String) (skipsBlanks : Bool)
    (s : Session) : Option (Except Fault Value × Session) :=
  aside (g.evaluateWithin n ctx (Reader.ofText text skipsBlanks)) s

theorem evaluateText_eq_evaluateTextWithin (g : Grammar) (ctx : Context) (text : String)
    (skipsBlanks : Bool) (s : Session) : g.evaluateText ctx text skipsBlanks s =
      g.evaluateTextWithin (g.fuel (Reader.ofText text skipsBlanks)) ctx text skipsBlanks s := rfl

variable {Q : Interpreter → Prop} {w : Nat} {g : Grammar}

theorem select_moved {name : String} {r r' : Reader} {out out' : Outcome} (hr : r.Moved w r')
    (h : out.Moved Q w out') : ParsesMoved Q w (select name r out) (select name r' out') := by
  unfold select
  rcases rel_cases (Builder.rel_getLast? h.results) with
    ⟨hlast, hlast'⟩ | ⟨last, last', hlast, hlast', hm⟩
  · simp only [Ascending.last?, hlast, hlast']
    rcases rel_cases h.fault with ⟨hf, hf'⟩ | ⟨f, f', hf, hf', hfault⟩
    · rw [hf, hf']
      exact .error (Fault.moved_parse hr.token.offset _)
    · rw [hf, hf']
      exact .error hfault
  · simp only [Ascending.last?, hlast, hlast']
    have htrailing := Fault.moved_trailing (w := w) hm.reader.token.offset
    rcases rel_cases (Ascending.forall₂_find? (fun _ _ hm => hm.reader.atEnd) h.results) with
      ⟨hx, hx'⟩ | ⟨m, m', hx, hx', hm⟩
    · simp only [hx, hx']
      rcases rel_cases (Fault.furthest_moved (.some htrailing) h.fault) with
        ⟨hf, hf'⟩ | ⟨f, f', hf, hf', hfault⟩
      · rw [hf, hf']
        exact .error htrailing
      · rw [hf, hf']
        exact .error hfault
    · simp only [hx, hx']
      exact .ok hm

/-- A parse from a reader further on comes to the same, whatever the fuel. -/
theorem parseWithin_moved (hg : ∀ p ∈ g.members, p.Blind Q) (n : Nat) {r r' : Reader}
    (hr : r.Moved w r') {s s' : Session} (hkeys : s'.memo.keys = s.memo.keys) :
    Option.Rel (fun x x' => ParsesMoved Q w x.1 x'.1) (g.parseWithin n r s)
      (g.parseWithin n r' s') := by
  have hs : (s.note (.starting g.name r.cursor)).forget.Moved Q w
      (s'.note (.starting g.name r'.cursor)).forget :=
    .of_forgotten hkeys (Session.known_forget _) (Session.known_forget _)
  exact rel_map (Parser.run_moves g.closed_members hg n g.root_mem_members hr hs) fun x x' hX =>
    select_moved hr hX.outcome

theorem evaluateWithin_moved (hQ : ∀ i, Q i → i.Blind) (hg : ∀ p ∈ g.members, p.Blind Q) (n : Nat)
    (ctx : Context) {r r' : Reader} (hr : r.Moved w r') {s s' : Session}
    (hkeys : s'.memo.keys = s.memo.keys) :
    Option.Rel (fun x x' => ValuesMoved Q w x.1 x'.1) (g.evaluateWithin n ctx r s)
      (g.evaluateWithin n ctx r' s') := by
  refine rel_map (parseWithin_moved hg n hr hkeys) fun x x' hX => ?_
  obtain ⟨result, t⟩ := x
  obtain ⟨result', t'⟩ := x'
  cases hX with
  | error hf =>
    refine ⟨.error hf.toAlike, fun f f' h h' => ?_⟩
    cases h
    cases h'
    exact .inl hf
  | @ok m m' hm =>
    obtain ⟨node, next⟩ := m
    obtain ⟨node', next'⟩ := m'
    cases hm.node with
    | none => exact ⟨.ok Value.nil, fun f f' h => by cases h⟩
    | @some node node' hnode =>
      exact ⟨hnode.value hQ node ctx, fun f f' h _ => .inr (hnode.raises node h)⟩

theorem parseWithin_mono {n n' : Nat} (hn : n ≤ n') {r : Reader} {s : Session}
    {x : Except Fault Match × Session} (h : g.parseWithin n r s = some x) :
    g.parseWithin n' r s = some x := by
  obtain ⟨y, hy, rfl⟩ := Option.map_eq_some_iff.mp h
  exact Option.map_eq_some_iff.mpr ⟨y, Parser.run_mono hn hy, rfl⟩

theorem evaluateWithin_mono {n n' : Nat} (hn : n ≤ n') {ctx : Context} {r : Reader} {s : Session}
    {x : Except Fault Value × Session} (h : g.evaluateWithin n ctx r s = some x) :
    g.evaluateWithin n' ctx r s = some x := by
  obtain ⟨y, hy, rfl⟩ := Option.map_eq_some_iff.mp h
  exact Option.map_eq_some_iff.mpr ⟨y, parseWithin_mono hn hy, rfl⟩

theorem evaluateTextWithin_mono {n n' : Nat} (hn : n ≤ n') {ctx : Context} {text : String}
    {skipsBlanks : Bool} {s : Session} {x : Except Fault Value × Session}
    (h : g.evaluateTextWithin n ctx text skipsBlanks s = some x) :
    g.evaluateTextWithin n' ctx text skipsBlanks s = some x := by
  obtain ⟨y, hy, rfl⟩ := Option.map_eq_some_iff.mp h
  exact Option.map_eq_some_iff.mpr ⟨y, evaluateWithin_mono hn hy, rfl⟩

theorem fuel_mono {r r' : Reader} (h : r.source.limit ≤ r'.source.limit) : g.fuel r ≤ g.fuel r' := by
  have hsize : (g.weight + 8) * (r.source.limit + 8) ≤ (g.weight + 8) * (r'.source.limit + 8) :=
    Nat.mul_le_mul_left _ (Nat.add_le_add_right h 8)
  exact Nat.mul_le_mul_left 64 (Nat.mul_le_mul hsize hsize)

section Padded

variable (ctx : Context) {text before after : String}
  (hbefore : ∀ c ∈ before.toList, isBlank c = true) (hafter : ∀ c ∈ after.toList, isBlank c = true)

include hbefore hafter in
theorem fuel_padded (g : Grammar) : g.fuel (Reader.ofText text true) ≤
    g.fuel (Reader.ofText (before ++ text ++ after) true) :=
  fuel_mono (Reader.limit_ofText_padded text hbefore hafter)

include hbefore hafter in
theorem parseWithin_padded (hg : ∀ p ∈ g.members, p.Blind Q) (n : Nat) (s s' : Session) :
    Option.Rel (fun x x' => ParsesMoved Q (shift before.toList text.toList) x.1 x'.1)
      (g.parseWithin n (Reader.ofText text true) s.reset)
      (g.parseWithin n (Reader.ofText (before ++ text ++ after) true) s'.reset) :=
  parseWithin_moved hg n (Reader.ofText_moved text hbefore hafter) rfl

include hbefore hafter in
theorem evaluateTextWithin_padded (hQ : ∀ i, Q i → i.Blind) (hg : ∀ p ∈ g.members, p.Blind Q)
    (n : Nat) (s s' : Session) :
    Option.Rel (fun x x' => ValuesMoved Q (shift before.toList text.toList) x.1 x'.1)
      (g.evaluateTextWithin n ctx text true s)
      (g.evaluateTextWithin n ctx (before ++ text ++ after) true s') := by
  have hkeys : s'.reset.memo.keys = s.reset.memo.keys := rfl
  have hmoved := Reader.ofText_moved text hbefore hafter
  exact rel_map (evaluateWithin_moved hQ hg n ctx hmoved hkeys) fun _ _ hX => hX

end Padded

/-- **Blanks around a text.** Where blanks are skipped, a grammar that depends on no places makes of a
text with blanks around it what it makes of the text: if one of the two comes to an end so does the
other, however deep calls may nest, and the fuel for a text is enough with blanks around it. Faults of
the parse are moved by the blanks in front, whatever faults interpreters raise. -/
theorem evaluateText_padded (hQ : ∀ i, Q i → i.Blind) (hg : ∀ p ∈ g.members, p.Blind Q)
    (ctx : Context) {text before after : String} (hbefore : ∀ c ∈ before.toList, isBlank c = true)
    (hafter : ∀ c ∈ after.toList, isBlank c = true) (s s' : Session) :
    let padded := before ++ text ++ after
    let w := shift before.toList text.toList
    (∀ n, Option.Rel (fun x x' => ValuesMoved Q w x.1 x'.1) (g.evaluateTextWithin n ctx text true s)
        (g.evaluateTextWithin n ctx padded true s')) ∧
      (∀ result t, g.evaluateText ctx text true s = some (result, t) → ∃ result' t',
        g.evaluateText ctx padded true s' = some (result', t') ∧ ValuesMoved Q w result result') ∧
      ∀ f t, g.parse (Reader.ofText text true) s.reset = some (.error f, t) → ∃ f' t',
        g.parse (Reader.ofText padded true) s'.reset = some (.error f', t') ∧ f.Moved w f' := by
  intro padded w
  have hfuel : g.fuel (Reader.ofText text true) ≤ g.fuel (Reader.ofText padded true) :=
    fuel_padded hbefore hafter g
  have hall : ∀ n, Option.Rel (fun x x' => ValuesMoved Q w x.1 x'.1)
      (g.evaluateTextWithin n ctx text true s) (g.evaluateTextWithin n ctx padded true s') :=
    fun n => evaluateTextWithin_padded ctx hbefore hafter hQ hg n s s'
  refine ⟨hall, fun result t h => ?_, fun f t h => ?_⟩
  · rw [evaluateText_eq_evaluateTextWithin] at h
    obtain ⟨⟨result', t'⟩, h', hmoved⟩ := exists_of_rel (hall _) h
    exact ⟨result', t', evaluateTextWithin_mono hfuel h', hmoved⟩
  · rw [parse_eq_parseWithin] at h
    obtain ⟨⟨result', t'⟩, h', hmoved⟩ :=
      exists_of_rel (parseWithin_padded hbefore hafter hg _ s s') h
    cases hmoved with
    | error hf => exact ⟨_, t', parseWithin_mono hfuel h', hf⟩

end Grammar

/-! ### Sums of integers -/

namespace Interpreter

variable {op : Int64 → Int64 → Int64}

theorem intOf_alike {c c' : Child} (h : c.Alike c') (ctx : Context) :
    SameResult (intOf ctx c) (intOf ctx c') := (h.value ctx).map _

/-- Binary operations look at no places. -/
theorem blind_operation : (operation op).Blind := by
  intro ctx cs cs' h
  match cs, cs', h with
  | [], [], .nil => exact .error (Fault.alike_eval _ _ rfl)
  | [_], [_], .cons _ .nil => exact .error (Fault.alike_eval _ _ rfl)
  | [_, _], [_, _], .cons _ (.cons _ .nil) => exact .error (Fault.alike_eval _ _ rfl)
  | [a, _, b], [a', _, b'], .cons ha (.cons _ (.cons hb .nil)) =>
    exact (intOf_alike ha ctx).bind fun x => (intOf_alike hb ctx).bind fun y =>
      SameResult.ok (Value.int (op x y))
  | _ :: _ :: _ :: _ :: cs, _ :: _ :: _ :: _ :: cs', .cons _ (.cons _ (.cons _ (.cons _ h))) =>
    refine .error (Fault.alike_eval _ _ ?_)
    simp only [List.length_cons, h.length_eq]

theorem value_of_intOf_eq_error {ctx : Context} {c : Child} {f : Fault}
    (h : intOf ctx c = .error f) : c.value ctx = .error f := by
  unfold intOf at h
  cases hc : c.value ctx with
  | error g =>
    rw [hc] at h
    cases h
    rfl
  | ok v =>
    rw [hc] at h
    cases h

/-- A fault that a binary operation raises itself is its own message at its first child. -/
theorem Raises.eval_of_operation {f : Fault} (h : (operation op).Raises f) :
    ∃ place message, f = .eval place message := by
  obtain ⟨ctx, cs, hf, hown⟩ := h
  match cs, hown, hf with
  | [a, _, b], hown, hf =>
    cases ha : intOf ctx a with
    | error g =>
      rw [operation, ha] at hf
      cases hf
      exact absurd (value_of_intOf_eq_error ha) (hown a (by simp) ctx)
    | ok x =>
      cases hb : intOf ctx b with
      | error g =>
        rw [operation, ha] at hf
        simp only [bind, Except.bind, hb] at hf
        cases hf
        exact absurd (value_of_intOf_eq_error hb) (hown b (by simp) ctx)
      | ok y =>
        rw [operation, ha] at hf
        simp only [bind, Except.bind, hb] at hf
        cases hf
  | [], _, hf | [_], _, hf | [_, _], _, hf | _ :: _ :: _ :: _ :: _, _, hf =>
    cases hf
    exact ⟨_, _, rfl⟩

/-- Raises one fault, at one place, whatever its children are. -/
def raising (f : Fault) : Interpreter := fun _ _ => .error f

theorem blind_raising (f : Fault) : (raising f).Blind := fun _ _ _ _ =>
  .error ⟨rfl, rfl⟩

end Interpreter

namespace Grammar

/-- Sums of integers, nested to the left. -/
def additions : Grammar where
  rules := ⟨[⟨"sum", .defined (.choice "sum" [
    .sequence ⟨0⟩ none (.group "SUM" (some (.operation (· + ·)))) (Draft.between 3 3) some
      [.rule ⟨0, "sum", false⟩, .terminal (.rune '+' "PLUS"), .terminal .integer],
    .terminal .integer])⟩]⟩
  root := .sentence (.rule ⟨0, "sum", true⟩)

/-- A sum without its second summand ends in the same fault with blanks around it, two bytes further
on if there are two blanks in front. -/
theorem additions_padded :
    let Q : Interpreter → Prop := (· = Interpreter.operation (· + ·))
    let missing := Fault.parse ⟨2, 1, 3⟩ "was expecting integer value"
    (∀ i, Q i → i.Blind) ∧ (∀ p ∈ additions.members, p.Blind Q) ∧
      (∀ c ∈ "\n ".toList, isBlank c = true) ∧ (∀ c ∈ " ".toList, isBlank c = true) ∧
      (∃ t, additions.evaluateText .none "1+" true .fresh = some (.error missing, t)) ∧
      ∃ f t, additions.evaluateText .none ("\n " ++ "1+" ++ " ") true .fresh = some (.error f, t) ∧
        missing.Moved 2 f := by
  intro Q missing
  have hQ : ∀ i, Q i → i.Blind := by
    rintro i rfl
    exact Interpreter.blind_operation
  have hg : ∀ p ∈ additions.members, p.Blind Q := by
    intro p hp
    cases p with
    | leaf l => simp [additions, members, Rules.definitions, Parser.members, membersAll] at hp
    | sequence key label build accepts lookup parts =>
      simp [additions, members, Rules.definitions, Parser.members, membersAll] at hp
      obtain ⟨-, -, rfl, -⟩ := hp
      exact Builder.blind_group fun f hf => (Option.some.inj hf).symm
    | repetition b p =>
      simp [additions, members, Rules.definitions, Parser.members, membersAll] at hp
    | _ => trivial
  have hbefore : ∀ c ∈ "\n ".toList, isBlank c = true := List.all_eq_true.mp rfl
  have hafter : ∀ c ∈ " ".toList, isBlank c = true := List.all_eq_true.mp rfl
  have hfault : (additions.evaluateText .none "1+" true .fresh).map (fun x => fault? x.1) =
      some (some missing) := by decide +kernel
  obtain ⟨⟨result, t⟩, heval, hresult⟩ := Option.map_eq_some_iff.mp hfault
  obtain rfl : result = .error missing := fault?_eq_some.mp hresult
  obtain ⟨result', t', heval', hmoved⟩ :=
    (evaluateText_padded hQ hg .none hbefore hafter .fresh .fresh).2.1 _ t heval
  cases hmoved.same with
  | @error _ f' _ =>
    refine ⟨hQ, hg, hbefore, hafter, ⟨t, heval⟩, f', t', heval', ?_⟩
    rcases hmoved.moved _ f' rfl rfl with hf | ⟨i, rfl, hraises⟩
    · exact hf
    · obtain ⟨place, message, hf⟩ := hraises.eval_of_operation
      exact absurd hf Fault.noConfusion

/-- A letter that is refused with the same fault wherever it stands. -/
def refusedLetter : Grammar where
  rules := .empty
  root := .sequence ⟨0⟩ none (.group "S" (some (.raising (.parse .start "refused"))))
    (Draft.between 1 1) some [.terminal (.rune 'a' "A")]

/-- A word with a value of its own. -/
def valuedWord (v : Value) : Grammar := ⟨.empty, .terminal (.word "x" "X" v)⟩

/-- The counterexample to faults that are always moved and values that are always equal. An interpreter
may raise a parse fault of its own at a fixed place, though it looks at none, and blanks in front do
not move that. What is no number is the value of a text with and without blanks around it, but equals
nothing, not even itself. -/
theorem refusedLetter_stays :
    let fault := Fault.parse .start "refused"
    let Q : Interpreter → Prop := (· = .raising fault)
    (∀ i, Q i → i.Blind) ∧ (∀ p ∈ refusedLetter.members, p.Blind Q) ∧
      (∀ c ∈ "  ".toList, isBlank c = true) ∧
      (∃ t, refusedLetter.evaluateText .none "a" true .fresh = some (.error fault, t)) ∧
      (∃ t, refusedLetter.evaluateText .none ("  " ++ "a" ++ "") true .fresh =
        some (.error fault, t)) ∧
      ¬ fault.Moved 2 fault ∧
      ∀ x : Float, (x == x) = false → ∃ v t v' t',
        (valuedWord (.float x)).evaluateText .none "x" true .fresh = some (.ok v, t) ∧
        (valuedWord (.float x)).evaluateText .none ("" ++ "x" ++ "") true .fresh =
          some (.ok v', t') ∧ (v == v') = false := by
  intro fault Q
  refine ⟨?_, ?_, List.all_eq_true.mp rfl, ⟨_, rfl⟩, ⟨_, rfl⟩, ?_,
    fun x hx => ⟨_, _, _, _, rfl, rfl, hx⟩⟩
  · rintro i rfl
    exact Interpreter.blind_raising fault
  · intro p hp
    simp only [refusedLetter, members, Rules.definitions, Rules.empty, List.filterMap_nil,
      membersAll, Parser.members, List.append_nil, List.mem_cons, List.not_mem_nil, or_false] at hp
    rcases hp with rfl | rfl
    · exact Builder.blind_group fun f hf => (Option.some.inj hf).symm
    · trivial
  · rintro ⟨-, hplace⟩
    cases hplace with
    | some h => cases h

end Grammar

end Curtail
