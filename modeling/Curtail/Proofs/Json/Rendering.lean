/-
# Written documents read back

A value is written as a row of tokens. Where blanks are skipped there may be
any before, between and after them, so the indented form is one of many. Every
such text denotes the value: what follows a token is a blank, a bracket, a
comma or a colon, and none of these continues a number or a word.

Numbers with a fraction and single characters are left out: the first are
rounded, and the second are written as texts.

Key definitions: `Json.Plain`, `Json.tokens`, `Json.Spaced`, `Json.Renders`.
Key theorems: `Json.readsBack_tokens`, `Json.spaced_jsonAt`,
`Json.evaluate_rendered`.
-/
import Curtail.Proofs.Json.Lexing
import Curtail.Proofs.Json.Recognition

namespace Curtail
namespace Json

open Text

/-! ### Tokens of a value -/

/-- A value that a document can stand for: no fractions, no single characters, and the keys of every map
in ascending order. -/
inductive Plain : Value → Prop
  | nil : Plain .nil
  | bool (b : Bool) : Plain (.bool b)
  | int (n : Int64) : Plain (.int n)
  | text (s : String) : Plain (.text s)
  | list {items : List Value} : (∀ v ∈ items, Plain v) → Plain (.list items)
  | map {entries : List (String × Value)} : entries.Pairwise (fun a b => a.1 < b.1) →
    (∀ e ∈ entries, Plain e.2) → Plain (.map entries)

/-- Rows of tokens with a comma between any two. -/
def separate : List (List String) → List String
  | [] => []
  | row :: rows => row ++ rows.flatMap ("," :: ·)

mutual

/-- The tokens a value is written as. -/
def tokens : Value → List String
  | .nil => ["null"]
  | .bool b => [wordOf b]
  | .int n => [n.toInt.repr]
  | .float x => [Decimal.Layout.json.write x]
  | .char c => [jsonQuoted c.toString]
  | .text s => [jsonQuoted s]
  | .list items => "[" :: (separate (itemTokens items) ++ ["]"])
  | .map entries => "\x7b" :: (separate (memberTokens entries) ++ ["\x7d"])

def itemTokens : List Value → List (List String)
  | [] => []
  | v :: vs => tokens v :: itemTokens vs

def memberTokens : List (String × Value) → List (List String)
  | [] => []
  | (k, v) :: es => (jsonQuoted k :: ":" :: tokens v) :: memberTokens es

end

theorem itemTokens_eq_map (vs : List Value) : itemTokens vs = vs.map tokens := by
  induction vs with
  | nil => rfl
  | cons v vs ih => rw [itemTokens, ih, List.map_cons]

theorem memberTokens_eq_map (es : List (String × Value)) :
    memberTokens es = es.map fun e => jsonQuoted e.1 :: ":" :: tokens e.2 := by
  induction es with
  | nil => rfl
  | cons e es ih => rw [memberTokens, ih, List.map_cons]

/-! ### Blanks between tokens -/

/-- Some blanks, or none where blanks are not skipped. -/
structure Blanks (skips : Bool) (cs : List Char) : Prop where
  blank : ∀ c ∈ cs, isBlank c = true
  skipped : skips = false → cs = []

/-- Tokens one after the other, with blanks before any of them. -/
inductive Spaced (skips : Bool) : List String → List Char → Prop
  | nil : Spaced skips [] []
  | cons {blanks cs : List Char} {token : String} {tokens : List String} : Blanks skips blanks →
    Spaced skips tokens cs → Spaced skips (token :: tokens) (blanks ++ (token.toList ++ cs))

/-- A text in which a value is written as its tokens, with blanks before, between and after them. -/
def Renders (skips : Bool) (v : Value) (text : String) : Prop :=
  ∃ cs after, text.toList = cs ++ after ∧ Spaced skips (tokens v) cs ∧ Blanks skips after

section Spacing

variable {skips : Bool} {blanks blanks' cs cs' rest : List Char} {token : String}
  {ts ts' : List String}

theorem Blanks.none (skips : Bool) : Blanks skips [] := ⟨nofun, fun _ => rfl⟩

theorem Blanks.append (h : Blanks skips blanks) (h' : Blanks skips blanks') :
    Blanks skips (blanks ++ blanks') where
  blank c hc := (List.mem_append.mp hc).elim (h.blank c) (h'.blank c)
  skipped hskips := by rw [h.skipped hskips, h'.skipped hskips]; rfl

theorem Blanks.breaks (h : Blanks skips blanks) (hrest : Breaks rest) : Breaks (blanks ++ rest) := by
  cases blanks with
  | nil => exact hrest
  | cons c blanks => exact breaks_cons (continues_of_isBlank (h.blank c List.mem_cons_self))

theorem Spaced.single (skips : Bool) (token : String) : Spaced skips [token] token.toList := by
  have h : Spaced skips [token] ([] ++ (token.toList ++ [])) := .cons (.none skips) .nil
  rwa [List.nil_append, List.append_nil] at h

theorem Spaced.append (h : Spaced skips ts cs) (h' : Spaced skips ts' cs') :
    Spaced skips (ts ++ ts') (cs ++ cs') := by
  induction h with
  | nil => exact h'
  | cons hblanks _ ih =>
    rw [List.append_assoc, List.append_assoc]
    exact .cons hblanks ih

theorem Spaced.split (h : Spaced skips (ts ++ ts') cs) :
    ∃ xs ys, cs = xs ++ ys ∧ Spaced skips ts xs ∧ Spaced skips ts' ys := by
  induction ts generalizing cs with
  | nil => exact ⟨[], cs, rfl, .nil, h⟩
  | cons token ts ih =>
    cases h with
    | cons hblanks h =>
      obtain ⟨xs, ys, rfl, hxs, hys⟩ := ih h
      exact ⟨_, ys, by simp only [List.append_assoc], .cons hblanks hxs, hys⟩

/-- More blanks may stand before the first token. -/
theorem Spaced.indent (h : Spaced skips ts cs) (hts : ts ≠ []) (hblanks : Blanks skips blanks) :
    Spaced skips ts (blanks ++ cs) := by
  cases h with
  | nil => exact absurd rfl hts
  | cons hblanks' h =>
    rw [← List.append_assoc]
    exact .cons (hblanks.append hblanks') h

/-- Without blanks the tokens make up the text. -/
theorem Spaced.eq_flatMap (h : Spaced false ts cs) : cs = ts.flatMap String.toList := by
  induction h with
  | nil => rfl
  | cons hblanks _ ih => rw [hblanks.skipped rfl, ih, List.nil_append, List.flatMap_cons]

/-- A token breaks off what stands before it if its first character does. -/
theorem Spaced.breaks (h : Spaced skips (token :: ts) cs) {c : Char} (htoken : token.toList = [c])
    (hc : continues c = false) : Breaks (cs ++ rest) := by
  cases h with
  | cons hblanks _ =>
    rw [htoken, List.append_assoc]
    exact hblanks.breaks (breaks_cons hc)

end Spacing

/-! ### Reading tokens -/

/-- A reader in `source` that has `cs` before it, up to the end. -/
structure Sees (source : Source) (cs : List Char) (r : Reader) : Prop where
  inSource : r.source = source
  before : r.rest = cs
  upToEnd : r.cursor.offset + byteLength cs = source.limit

/-- A token that does not start with a blank. -/
def Starts (token : String) : Prop := ∃ c more, token.toList = c :: more ∧ isBlank c = false

/-- Where an item is written as some tokens it is read, whatever breaks off after it. -/
def ReadsBack {α : Type} (source : Source) (Item : Reader → α → Reader → Prop) (a : α)
    (ts : List String) : Prop :=
  ∀ {cs rest : List Char} {r : Reader}, Spaced source.skipsBlanks ts cs →
    Sees source (cs ++ rest) r → Breaks rest → ∃ r', Item r a r' ∧ Sees source rest r'

section Reading

variable {source : Source} {blanks cs rest : List Char} {r : Reader}

theorem Sees.skip (h : Sees source (cs ++ rest) r) : Sees source rest (r.skip cs.length) where
  inSource := h.inSource
  before := by rw [Reader.rest_skip, h.before, List.drop_left]
  upToEnd := by
    have := h.upToEnd
    rw [byteLength_append] at this
    rw [Reader.offset_skip, h.before, List.take_left]
    omega

/-- The next token is after the blanks. -/
theorem Sees.token (h : Sees source (blanks ++ cs) r) (hblanks : Blanks source.skipsBlanks blanks)
    (hcs : ∃ c more, cs = c :: more ∧ isBlank c = false) : Sees source cs r.token := by
  obtain ⟨c, more, hcs, hc⟩ := hcs
  unfold Reader.token
  rw [h.inSource]
  cases hskips : source.skipsBlanks with
  | false =>
    obtain rfl := hblanks.skipped hskips
    exact h
  | true =>
    have hrun : cs.takeWhile isBlank = [] := by rw [hcs, List.takeWhile_cons_of_neg (by simp [hc])]
    have htake : r.rest.takeWhile isBlank = blanks := by
      rw [h.before, List.takeWhile_append_of_pos hblanks.blank, hrun, List.append_nil]
    rw [if_pos rfl, Reader.skipBlanks, htake]
    exact h.skip

theorem Sees.atEnd (h : Sees source [] r) : r.atEnd = true := by
  have hoffset := h.upToEnd
  rw [Reader.atEnd_iff, h.inSource]
  exact Nat.le_of_eq hoffset.symm

/-- The first of some spaced tokens is where the next token is looked for. -/
theorem Sees.first {token : String} {ts : List String} (hts : Spaced source.skipsBlanks (token :: ts) cs)
    (hstarts : Starts token) (h : Sees source (cs ++ rest) r) :
    ∃ cs', Spaced source.skipsBlanks ts cs' ∧ r.token.rest = token.toList ++ (cs' ++ rest) ∧
      Sees source (cs' ++ rest) (r.token.skip token.toList.length) := by
  cases hts with
  | @cons blanks cs' _ _ hblanks hcs' =>
    obtain ⟨c, more, htoken, hc⟩ := hstarts
    rw [List.append_assoc, List.append_assoc] at h
    have hsees := h.token hblanks ⟨c, more ++ (cs' ++ rest), by rw [htoken]; rfl, hc⟩
    exact ⟨cs', hcs', hsees.before, hsees.skip⟩

/-- A single token reads back if it is read where it stands. -/
theorem readsBack_single {α : Type} {Item : Reader → α → Reader → Prop} {a : α} {token : String}
    (hstarts : Starts token) (hread : ∀ {r : Reader} {rest : List Char},
      r.token.rest = token.toList ++ rest → Breaks rest →
        Item r a (r.token.skip token.toList.length)) : ReadsBack source Item a [token] := by
  intro cs rest r h hr hrest
  obtain ⟨cs', hcs', htoken, hsees⟩ := hr.first h hstarts
  cases hcs'
  exact ⟨_, hread htoken hrest, hsees⟩

/-- A token of one character is read. -/
theorem rune_of_spaced {c : Char} (name : String) {token : String} {ts : List String}
    (htoken : token.toList = [c]) (hc : isBlank c = false)
    (h : Spaced source.skipsBlanks (token :: ts) cs) (hr : Sees source (cs ++ rest) r) :
    ∃ cs' r', Spaced source.skipsBlanks ts cs' ∧ token? (.rune c name) r = some (.char c, r') ∧
      Sees source (cs' ++ rest) r' := by
  obtain ⟨cs', hcs', hbefore, hsees⟩ := hr.first h ⟨c, [], htoken, hc⟩
  rw [htoken] at hbefore hsees
  exact ⟨cs', _, hcs', token?_rune_written name hbefore, hsees⟩

/-! ### Reading lists -/

section Lists

variable {α : Type} {Item : Reader → α → Reader → Prop} {row : α → List String} {as : List α}

/-- Where no item follows, or a comma and an item, what stands before breaks off. -/
theorem breaks_tail (h : Spaced source.skipsBlanks (as.flatMap fun a => "," :: row a) cs)
    (hrest : Breaks rest) : Breaks (cs ++ rest) := by
  cases as with
  | nil => cases h; exact hrest
  | cons a as => exact h.breaks rfl (by decide)

theorem series_tail (hitems : ∀ a ∈ as, ReadsBack source Item a (row a))
    (h : Spaced source.skipsBlanks (as.flatMap fun a => "," :: row a) cs)
    (hr : Sees source (cs ++ rest) r) (hrest : Breaks rest) :
    ∃ r', Series Item true r as r' ∧ Sees source rest r' := by
  induction as generalizing cs r with
  | nil =>
    cases h
    exact ⟨r, .stop, hr⟩
  | cons a as ih =>
    obtain ⟨hitem, hitems⟩ := List.forall_mem_cons.mp hitems
    obtain ⟨cs₁, r₁, hcs₁, hcomma, hr₁⟩ := rune_of_spaced "," rfl (by decide) h hr
    obtain ⟨xs, ys, rfl, hxs, hys⟩ := hcs₁.split
    rw [List.append_assoc] at hr₁
    obtain ⟨r₂, ha, hr₂⟩ := hitem hxs hr₁ (breaks_tail hys hrest)
    obtain ⟨r₃, has, hr₃⟩ := ih hitems hys hr₂
    exact ⟨r₃, .more hcomma ha has, hr₃⟩

theorem series_items (hitems : ∀ a ∈ as, ReadsBack source Item a (row a))
    (h : Spaced source.skipsBlanks (separate (as.map row)) cs) (hr : Sees source (cs ++ rest) r)
    (hrest : Breaks rest) : ∃ r', Series Item false r as r' ∧ Sees source rest r' := by
  cases as with
  | nil =>
    cases h
    exact ⟨r, .stop, hr⟩
  | cons a as =>
    obtain ⟨hitem, hitems⟩ := List.forall_mem_cons.mp hitems
    rw [List.map_cons, separate, List.flatMap_map] at h
    obtain ⟨xs, ys, rfl, hxs, hys⟩ := h.split
    rw [List.append_assoc] at hr
    obtain ⟨r₁, ha, hr₁⟩ := hitem hxs hr (breaks_tail hys hrest)
    obtain ⟨r₂, has, hr₂⟩ := series_tail hitems hys hr₁ hrest
    exact ⟨r₂, .first ha has, hr₂⟩

/-- Items between brackets. -/
theorem series_between {opening closing : Char} (opening' closing' : String) {token token' : String}
    (hopening : token.toList = [opening] ∧ isBlank opening = false)
    (hclosing : token'.toList = [closing] ∧ isBlank closing = false ∧ continues closing = false)
    (hitems : ∀ a ∈ as, ReadsBack source Item a (row a))
    (h : Spaced source.skipsBlanks (token :: (separate (as.map row) ++ [token'])) cs)
    (hr : Sees source (cs ++ rest) r) :
    ∃ r₁ r₂ r₃, token? (.rune opening opening') r = some (.char opening, r₁) ∧
      Series Item false r₁ as r₂ ∧ token? (.rune closing closing') r₂ = some (.char closing, r₃) ∧
        Sees source rest r₃ := by
  obtain ⟨cs₁, r₁, hcs₁, hopen, hr₁⟩ := rune_of_spaced opening' hopening.1 hopening.2 h hr
  obtain ⟨xs, ys, rfl, hxs, hys⟩ := hcs₁.split
  rw [List.append_assoc] at hr₁
  obtain ⟨r₂, has, hr₂⟩ := series_items hitems hxs hr₁ (hys.breaks hclosing.1 hclosing.2.2)
  obtain ⟨cs₃, r₃, hcs₃, hclose, hr₃⟩ := rune_of_spaced closing' hclosing.1 hclosing.2.1 hys hr₂
  cases hcs₃
  exact ⟨r₁, r₂, r₃, hopen, has, hclose, hr₃⟩

end Lists

/-! ### Reading values -/

theorem starts_jsonQuoted (s : String) : Starts (jsonQuoted s) :=
  ⟨'"', _, Lexeme.toList_jsonQuoted s, by decide⟩

theorem starts_repr (i : Int) : Starts i.repr := by
  obtain ⟨c, cs, hcs, -, -⟩ := Lexeme.toDigits_eq_cons i.natAbs
  have hc := Lexeme.isBlank_toDigits i.natAbs c (hcs ▸ List.mem_cons_self)
  unfold Starts
  rw [Lexeme.toList_repr, hcs, Lexeme.signOf]
  split
  · exact ⟨'-', _, rfl, by decide⟩
  · exact ⟨c, cs, rfl, hc⟩

theorem readsBack_member {k : String} {v : Value}
    (hv : ReadsBack source Denotes v (tokens v)) :
    ReadsBack source Member (k, v) (jsonQuoted k :: ":" :: tokens v) := by
  intro cs rest r h hr hrest
  obtain ⟨cs₁, hcs₁, hkey, hr₁⟩ := hr.first h (starts_jsonQuoted k)
  obtain ⟨cs₂, r₂, hcs₂, hcolon, hr₂⟩ := rune_of_spaced ":" rfl (by decide) hcs₁ hr₁
  obtain ⟨r₃, hvalue, hr₃⟩ := hv hcs₂ hr₂ hrest
  exact ⟨r₃, .mk (token?_quoted_written hkey) hcolon hvalue, hr₃⟩

/-- Ascending entries make the map they are. -/
theorem lastWins_self {es : List (String × Value)} (h : es.Pairwise fun a b => a.1 < b.1) :
    LastWins es es := by
  refine ⟨h, fun key => ?_⟩
  induction es with
  | nil => rfl
  | cons e es ih =>
    obtain ⟨hmin, hes⟩ := List.pairwise_cons.mp h
    rw [List.reverse_cons, List.lookup_append, ← ih hes, lookup_cons, lookup_cons]
    by_cases hkey : key = e.1
    · subst hkey
      rw [lookup_eq_none hmin]
      rfl
    · rw [if_neg hkey, if_neg hkey]
      simp

/-- A value reads back from its tokens. -/
theorem readsBack_tokens {v : Value} (hv : Plain v) : ReadsBack source Denotes v (tokens v) := by
  induction hv with
  | nil => exact readsBack_single ⟨'n', _, rfl, by decide⟩ fun h hrest =>
      .null (token?_null_written h hrest)
  | bool b =>
    refine readsBack_single ?_ fun h hrest => .truth (token?_truth_written h hrest)
    cases b
    · exact ⟨'f', _, rfl, by decide⟩
    · exact ⟨'t', _, rfl, by decide⟩
  | int n => exact readsBack_single (starts_repr _) fun h hrest =>
      .integer (token?_integer_written h hrest).1 (token?_integer_written h hrest).2
  | text s => exact readsBack_single (starts_jsonQuoted s) fun h _ => .text (token?_quoted_written h)
  | @list items _ ih =>
    intro cs rest r h hr _
    rw [tokens, itemTokens_eq_map] at h
    obtain ⟨r₁, r₂, r₃, hopen, has, hclose, hr₃⟩ := series_between "ARR_START" "ARR_END"
      ⟨rfl, by decide⟩ ⟨rfl, by decide⟩ ih h hr
    exact ⟨r₃, .array hopen has hclose, hr₃⟩
  | @map entries hsorted _ ih =>
    intro cs rest r h hr _
    rw [tokens, memberTokens_eq_map] at h
    obtain ⟨r₁, r₂, r₃, hopen, has, hclose, hr₃⟩ := series_between "OBJ_START" "OBJ_END"
      ⟨rfl, by decide⟩ ⟨rfl, by decide⟩ (fun e he => readsBack_member (ih e he)) h hr
    exact ⟨r₃, .object hopen has hclose (lastWins_self hsorted), hr₃⟩

end Reading

/-! ### Whole texts -/

section Texts

variable {skips : Bool} {cs : List Char}

/-- A token that does not end with a blank. -/
def Ends (token : String) : Prop := ∃ body c, token.toList = body ++ [c] ∧ isBlank c = false

theorem ends_jsonQuoted (s : String) : Ends (jsonQuoted s) :=
  ⟨'"' :: s.toList.flatMap Lexeme.written, '"', Lexeme.toList_jsonQuoted s, by decide⟩

theorem ends_repr (i : Int) : Ends i.repr := by
  rcases List.eq_nil_or_concat' (Nat.toDigits 10 i.natAbs) with hnil | ⟨body, c, hcs⟩
  · exact absurd hnil Nat.toDigits_ne_nil
  · refine ⟨Lexeme.signOf i ++ body, c, by rw [Lexeme.toList_repr, hcs, List.append_assoc], ?_⟩
    exact Lexeme.isBlank_toDigits i.natAbs c (by rw [hcs]; simp)

/-- What a value is written as starts and ends with tokens that do not. -/
theorem tokens_bounds {v : Value} (hv : Plain v) :
    (∃ first ts, tokens v = first :: ts ∧ Starts first) ∧
      ∃ ts last, tokens v = ts ++ [last] ∧ Ends last := by
  cases hv with
  | nil => exact ⟨⟨_, [], rfl, 'n', _, rfl, by decide⟩, [], _, rfl, ['n', 'u', 'l'], 'l', rfl, by decide⟩
  | bool b =>
    cases b
    · exact ⟨⟨_, [], rfl, 'f', _, rfl, by decide⟩, [], _, rfl, ['f', 'a', 'l', 's'], 'e', rfl,
        by decide⟩
    · exact ⟨⟨_, [], rfl, 't', _, rfl, by decide⟩, [], _, rfl, ['t', 'r', 'u'], 'e', rfl, by decide⟩
  | int n => exact ⟨⟨_, [], rfl, starts_repr _⟩, [], _, rfl, ends_repr _⟩
  | text s => exact ⟨⟨_, [], rfl, starts_jsonQuoted s⟩, [], _, rfl, ends_jsonQuoted s⟩
  | list _ =>
    rw [tokens, ← List.cons_append]
    exact ⟨⟨_, _, rfl, '[', [], rfl, by decide⟩, _, _, rfl, [], ']', rfl, by decide⟩
  | map _ _ =>
    rw [tokens, ← List.cons_append]
    exact ⟨⟨_, _, rfl, '\x7b', [], rfl, by decide⟩, _, _, rfl, [], '\x7d', rfl, by decide⟩

theorem trimEnd_append {body after : List Char} {c : Char} (hc : isBlank c = false)
    (hafter : ∀ c ∈ after, isBlank c = true) : trimEnd (body ++ [c] ++ after) = body ++ [c] := by
  have hreverse : (body ++ [c] ++ after).reverse = after.reverse ++ c :: body.reverse := by simp
  rw [trimEnd, hreverse, List.dropWhile_append_of_pos (by simpa using hafter),
    List.dropWhile_cons_of_neg (by simp [hc])]
  simp

/-- Blanks at the end are no part of what is read. -/
theorem readablePart_of_spaced {v : Value} (hv : Plain v) {text : String} {after : List Char}
    (htext : text.toList = cs ++ after) (hcs : Spaced skips (tokens v) cs)
    (hafter : Blanks skips after) : readablePart text skips = cs := by
  cases skips with
  | false =>
    obtain rfl := hafter.skipped rfl
    exact htext.trans (List.append_nil cs)
  | true =>
    obtain ⟨-, ts, last, htokens, body, c, hlast, hc⟩ := tokens_bounds hv
    rw [htokens] at hcs
    obtain ⟨xs, ys, rfl, -, hys⟩ := hcs.split
    cases hys with
    | @cons blanks _ _ _ _ hnil =>
      cases hnil
      have hends : xs ++ (blanks ++ (last.toList ++ [])) = xs ++ blanks ++ body ++ [c] := by
        simp [hlast]
      rw [hends] at htext ⊢
      rw [readablePart, if_pos rfl, htext]
      exact trimEnd_append hc hafter.blank

/-- At the start of a rendering stands a document of the value, up to the end. -/
theorem denotes_of_renders {v : Value} (hv : Plain v) {text : String} (h : Renders skips v text) :
    ∃ r', Denotes (Reader.ofText text skips) v r' ∧ r'.atEnd = true := by
  obtain ⟨cs, after, htext, hcs, hafter⟩ := h
  have hreadable := readablePart_of_spaced hv htext hcs hafter
  obtain ⟨⟨first, ts, htokens, c, more, hfirst, hc⟩, -⟩ := tokens_bounds hv
  rw [htokens] at hcs
  cases hcs with
  | @cons blanks cs' _ _ hblanks hrest =>
    let source := Source.ofText text skips
    let start : Reader := ⟨source, .start, source.readable, (dropBytes_zero _).symm⟩
    have hstart : Sees source (blanks ++ (first.toList ++ cs')) start := by
      refine ⟨rfl, hreadable, ?_⟩
      show 0 + byteLength (blanks ++ (first.toList ++ cs')) = byteLength (readablePart text skips)
      rw [hreadable, Nat.zero_add]
    have hsees := hstart.token hblanks ⟨c, more ++ cs', by rw [hfirst]; rfl, hc⟩
    have hspaced : Spaced source.skipsBlanks (tokens v) ([] ++ (first.toList ++ cs')) :=
      htokens ▸ .cons (.none skips) hrest
    rw [← List.append_nil (first.toList ++ cs')] at hsees
    obtain ⟨r', hdenotes, hend⟩ := readsBack_tokens hv hspaced hsees breaks_nil
    exact ⟨r', hdenotes, hend.atEnd⟩

/-- A text in which a value is written evaluates to it. -/
theorem evaluate_of_renders {v : Value} (hv : Plain v) {text : String} (h : Renders skips v text)
    (s : Session) : ∃ s', evaluate (Reader.ofText text skips) s = some (.ok v, s') := by
  obtain ⟨r', hdenotes, hend⟩ := denotes_of_renders hv h
  obtain ⟨result, s', hx, hresult⟩ := evaluate_eq (Reader.ofText text skips) s
  have hread := (denotes_iff (Nat.lt_succ_self _)).mp hdenotes
  rw [(hresult v).mpr ⟨r', hread, hend⟩] at hx
  exact ⟨s', hx⟩

end Texts

/-! ### Compact and indented form -/

/-- A style that only adds blanks, or nothing where blanks are not skipped. -/
structure Airy (skips : Bool) (style : JsonStyle) : Prop where
  newline : ∀ depth, Blanks skips (style.newline depth).toList
  colon : ∃ blanks, style.colon.toList = ':' :: blanks ∧ Blanks skips blanks

theorem airy_compact (skips : Bool) : Airy skips .compact where
  newline _ := .none skips
  colon := ⟨[], rfl, .none skips⟩

theorem airy_pretty : Airy true .pretty where
  newline depth := by
    refine ⟨fun c hc => ?_, nofun⟩
    simp only [JsonStyle.pretty, String.toList_append, String.toList_ofList, List.mem_append,
      List.mem_replicate] at hc
    rcases hc with hc | ⟨-, rfl⟩
    · obtain rfl : c = '\n' := by simpa using hc
      decide
    · decide
  colon := by
    refine ⟨[' '], rfl, fun c hc => ?_, nofun⟩
    obtain rfl := List.mem_singleton.mp hc
    decide

section Styles

variable {skips : Bool} {style : JsonStyle} {α : Type} {row : α → List String} {write : α → String}
  {as : List α}

theorem jsonItems_eq_map (style : JsonStyle) (depth : Nat) (vs : List Value) :
    Value.jsonItems style depth vs = vs.map (Value.jsonAt style depth) := by
  induction vs with
  | nil => rfl
  | cons v vs ih => rw [Value.jsonItems, ih, List.map_cons]

theorem jsonEntries_eq_map (style : JsonStyle) (depth : Nat) (es : List (String × Value)) :
    Value.jsonEntries style depth es =
      es.map fun e => jsonQuoted e.1 ++ style.colon ++ Value.jsonAt style depth e.2 := by
  induction es with
  | nil => rfl
  | cons e es ih => rw [Value.jsonEntries, ih, List.map_cons]

theorem toList_intercalate_cons (sep x : String) (xs : List String) :
    (sep.intercalate (x :: xs)).toList = x.toList ++ xs.flatMap fun y => sep.toList ++ y.toList := by
  induction xs generalizing x with
  | nil => simp
  | cons y ys ih =>
    rw [String.intercalate_cons_cons, String.toList_append, String.toList_append, ih,
      List.flatMap_cons, List.append_assoc, List.append_assoc]

/-- Items with a comma and blanks between any two. -/
theorem spaced_intercalate {newline : String} (hnewline : Blanks skips newline.toList)
    (has : ∀ a ∈ as, row a ≠ [] ∧ Spaced skips (row a) (write a).toList) :
    Spaced skips (separate (as.map row)) (("," ++ newline).intercalate (as.map write)).toList := by
  have htail : ∀ {as : List α}, (∀ a ∈ as, row a ≠ [] ∧ Spaced skips (row a) (write a).toList) →
      Spaced skips (as.flatMap fun a => "," :: row a)
        (as.flatMap fun a => ("," ++ newline).toList ++ (write a).toList) := by
    intro as has
    induction as with
    | nil => exact .nil
    | cons a as ih =>
      obtain ⟨⟨hne, hrow⟩, has⟩ := List.forall_mem_cons.mp has
      have hitem : Spaced skips ("," :: row a) (("," ++ newline).toList ++ (write a).toList) := by
        rw [String.toList_append, List.append_assoc]
        exact .cons (.none skips) (hrow.indent hne hnewline)
      rw [List.flatMap_cons, List.flatMap_cons]
      exact hitem.append (ih has)
  cases as with
  | nil => exact .nil
  | cons a as =>
    obtain ⟨⟨-, hrow⟩, has⟩ := List.forall_mem_cons.mp has
    rw [List.map_cons, separate, List.flatMap_map, List.map_cons, toList_intercalate_cons,
      List.flatMap_map]
    exact hrow.append (htail has)

/-- Items between brackets. -/
theorem spaced_wrap (hstyle : Airy skips style) (depth : Nat) (opening closing : String)
    (has : ∀ a ∈ as, row a ≠ [] ∧ Spaced skips (row a) (write a).toList) :
    Spaced skips (opening :: (separate (as.map row) ++ [closing]))
      (style.wrap depth opening closing (as.map write)).toList := by
  cases as with
  | nil =>
    have h : Spaced skips [opening, closing] ([] ++ (opening.toList ++ closing.toList)) :=
      .cons (.none skips) (.single skips closing)
    rwa [List.nil_append, ← String.toList_append] at h
  | cons a as =>
    have hitems := spaced_intercalate (hstyle.newline (depth + 1)) has
    have hne : separate ((a :: as).map row) ≠ [] := by
      rw [List.map_cons, separate]
      exact List.append_ne_nil_of_left_ne_nil (has a List.mem_cons_self).1 _
    have hclosing := (Spaced.single skips closing).indent nofun (hstyle.newline depth)
    have h : Spaced skips (opening :: _) ([] ++ (opening.toList ++ _)) :=
      .cons (.none skips) ((hitems.indent hne (hstyle.newline (depth + 1))).append hclosing)
    simpa only [JsonStyle.wrap, List.map_cons, String.toList_append, List.append_assoc,
      List.nil_append] using h

/-- A value in a style that adds blanks is its tokens. -/
theorem spaced_jsonAt (hstyle : Airy skips style) {v : Value} (hv : Plain v) :
    ∀ depth, Spaced skips (tokens v) (Value.jsonAt style depth v).toList := by
  induction hv with
  | nil => exact fun _ => .single skips "null"
  | bool b => exact fun _ => .single skips (wordOf b)
  | int n => exact fun _ => .single skips n.toInt.repr
  | text s => exact fun _ => .single skips (jsonQuoted s)
  | @list items hitems ih =>
    intro depth
    rw [tokens, itemTokens_eq_map, Value.jsonAt, jsonItems_eq_map]
    refine spaced_wrap hstyle depth "[" "]" fun v hv => ⟨?_, ih v hv _⟩
    obtain ⟨⟨first, ts, htokens, -⟩, -⟩ := tokens_bounds (hitems v hv)
    simp [htokens]
  | @map entries _ hentries ih =>
    intro depth
    rw [tokens, memberTokens_eq_map, Value.jsonAt, jsonEntries_eq_map]
    refine spaced_wrap hstyle depth "\x7b" "\x7d" fun e he => ⟨nofun, ?_⟩
    obtain ⟨blanks, hcolon, hblanks⟩ := hstyle.colon
    obtain ⟨⟨first, ts, htokens, -⟩, -⟩ := tokens_bounds (hentries e he)
    have hvalue := (ih e he (depth + 1)).indent (by simp [htokens]) hblanks
    have h : Spaced skips (jsonQuoted e.1 :: ":" :: tokens e.2)
        ([] ++ ((jsonQuoted e.1).toList ++ ([] ++ (":".toList ++ _)))) :=
      .cons (.none skips) (.cons (.none skips) hvalue)
    simpa [hcolon] using h

end Styles

theorem renders_jsonText {skips : Bool} {style : JsonStyle} (hstyle : Airy skips style) {v : Value}
    (hv : Plain v) : Renders skips v (v.jsonText style) :=
  ⟨_, [], (List.append_nil _).symm, spaced_jsonAt hstyle hv 0, .none skips⟩

/-- **Every text in which a value is written evaluates to it**: with any blanks before, between and after
its tokens, so also the indented form, where blanks are skipped; and as its bare tokens, which is the
compact form, where they are not. -/
theorem evaluate_rendered {v : Value} (hv : Plain v) (s : Session) :
    (v.jsonText .compact).toList = (tokens v).flatMap String.toList ∧
      (∀ text, Renders true v text →
        ∃ s', evaluate (Reader.ofText text true) s = some (.ok v, s')) ∧
      Renders true v (v.jsonText .compact) ∧ Renders true v (v.jsonText .pretty) ∧
      ∃ s', evaluate (Reader.ofText (v.jsonText .compact) false) s = some (.ok v, s') := by
  refine ⟨(spaced_jsonAt (airy_compact false) hv 0).eq_flatMap,
    fun text h => evaluate_of_renders hv h s, renders_jsonText (airy_compact true) hv,
    renders_jsonText airy_pretty hv,
    evaluate_of_renders hv (renders_jsonText (airy_compact false) hv) s⟩

/-- A map of a list and a text. -/
def sample : Value := .map [("a", .list [.int (-1), .nil, .list []]), ("b", .text "\"\n")]

theorem plain_sample : Plain sample := by
  refine .map (by decide) (List.forall_mem_cons.mpr ⟨.list ?_, List.forall_mem_singleton.mpr (.text _)⟩)
  refine List.forall_mem_cons.mpr ⟨.int _, List.forall_mem_cons.mpr ⟨.nil, ?_⟩⟩
  exact List.forall_mem_singleton.mpr (.list nofun)

theorem blanks_of_all (gap : String) (h : gap.toList.all isBlank = true) : Blanks true gap.toList :=
  ⟨List.all_eq_true.mp h, nofun⟩

theorem renders_sample :
    Renders true sample "\n\x7b \"a\" :[ -1,\t null,[ ]]  ,\"b\":\"\\\"\\n\"\x7d " := by
  have htokens : tokens sample = ["\x7b", "\"a\"", ":", "[", "-1", ",", "null", ",", "[", "]", "]", ",",
      "\"b\"", ":", "\"\\\"\\n\"", "\x7d"] := by decide +kernel
  unfold Renders
  rw [htokens]
  exact ⟨_, " ".toList, by decide +kernel,
    .cons (blanks_of_all "\n" (by decide)) <| .cons (blanks_of_all " " (by decide)) <|
      .cons (blanks_of_all " " (by decide)) <| .cons (.none true) <|
      .cons (blanks_of_all " " (by decide)) <| .cons (.none true) <|
      .cons (blanks_of_all "\t " (by decide)) <| .cons (.none true) <| .cons (.none true) <|
      .cons (blanks_of_all " " (by decide)) <| .cons (.none true) <|
      .cons (blanks_of_all "  " (by decide)) <| .cons (.none true) <| .cons (.none true) <|
      .cons (.none true) <| .cons (.none true) .nil,
    blanks_of_all " " (by decide)⟩

theorem sample_rendered : Plain sample ∧ ∃ s', evaluate (Reader.ofText
    "\n\x7b \"a\" :[ -1,\t null,[ ]]  ,\"b\":\"\\\"\\n\"\x7d " true) .fresh = some (.ok sample, s') :=
  ⟨plain_sample, (evaluate_rendered plain_sample .fresh).2.1 _ renders_sample⟩

end Json
end Curtail
