/-
# Letters

Where a grammar reads nothing but single characters, all it sees of a text are
the letters: the characters in their order, each with its place. Blanks are no
letters if the source skips them. A reader that fits its source, as any does
that is reached by reading, is at the end as soon as no letter is left.

Key definitions: `Letter`, `letters`, `Reader.letters`, `Reader.next`,
`Reader.Fits`.
Key theorems: `Terminal.find_rune_iff`, `Reader.rest_ofText`,
`Reader.letters_ofText`, `Reader.Fits.atEnd_iff`.
-/
import Curtail.Proofs.Following
import Curtail.Proofs.Selection
import Mathlib.Data.List.TakeWhile

namespace Curtail

open Text

/-- A character of a text with its place. -/
structure Letter where
  char : Char
  start : Position
  stop : Position

/-- The node of a letter that was read. -/
def Letter.leaf (l : Letter) (token : String) : Node := .leaf token (.char l.char) l.start l.stop

/-- The letters of what stands at a position. -/
def lettersFrom (skipsBlanks : Bool) : Position → List Char → List Letter
  | _, [] => []
  | p, c :: cs =>
    if skipsBlanks && isBlank c then lettersFrom skipsBlanks (p.advance c) cs
    else ⟨c, p, p.advance c⟩ :: lettersFrom skipsBlanks (p.advance c) cs

/-- The letters of a text. -/
def letters (text : String) (skipsBlanks : Bool) : List Letter :=
  lettersFrom skipsBlanks .start text.toList

section Lists

variable (skipsBlanks : Bool)

/-- The letters are the characters, without the blanks that are skipped. -/
theorem map_char_lettersFrom (p : Position) (cs : List Char) :
    (lettersFrom skipsBlanks p cs).map (·.char) = cs.filter fun c => !(skipsBlanks && isBlank c) := by
  induction cs generalizing p with
  | nil => rfl
  | cons c cs ih =>
    rw [lettersFrom, List.filter_cons]
    cases skipsBlanks && isBlank c with
    | true => exact ih _
    | false => exact congrArg (c :: ·) (ih _)

theorem map_char_letters (text : String) : (letters text skipsBlanks).map (·.char) =
    text.toList.filter fun c => !(skipsBlanks && isBlank c) :=
  map_char_lettersFrom skipsBlanks .start text.toList

theorem lettersFrom_append (p : Position) (xs ys : List Char) :
    lettersFrom skipsBlanks p (xs ++ ys) =
      lettersFrom skipsBlanks p xs ++ lettersFrom skipsBlanks (p.advanceAll xs) ys := by
  induction xs generalizing p with
  | nil => rfl
  | cons c xs ih =>
    show lettersFrom skipsBlanks p (c :: (xs ++ ys)) = _
    simp only [lettersFrom, ih]
    split <;> rfl

end Lists

/-- Blanks are no letters where they are skipped. -/
theorem lettersFrom_eq_nil {p : Position} {cs : List Char} (h : ∀ c ∈ cs, isBlank c = true) :
    lettersFrom true p cs = [] := by
  induction cs generalizing p with
  | nil => rfl
  | cons c cs ih =>
    rw [lettersFrom, h c List.mem_cons_self]
    exact ih fun c hc => h c (List.mem_cons_of_mem _ hc)

/-- Letters are lost only with blanks that are skipped. -/
theorem isBlank_of_lettersFrom_eq_nil {skipsBlanks : Bool} {p : Position} {cs : List Char}
    (h : lettersFrom skipsBlanks p cs = []) {c : Char} (hc : c ∈ cs) :
    skipsBlanks = true ∧ isBlank c = true := by
  have hfilter := map_char_lettersFrom skipsBlanks p cs
  rw [h, List.map_nil, eq_comm, List.filter_eq_nil_iff] at hfilter
  simpa using hfilter c hc

/-! ### Blanks at the end of a text -/

/-- A trimmed text ends with something that is no blank. -/
theorem not_isBlank_of_getLast?_trimEnd {cs : List Char} {c : Char}
    (h : (trimEnd cs).getLast? = some c) : isBlank c = false := by
  rw [trimEnd, List.getLast?_reverse] at h
  simpa [h] using List.head?_dropWhile_not isBlank cs.reverse

/-- Trimming takes no letter away. -/
theorem lettersFrom_trimEnd (p : Position) (cs : List Char) :
    lettersFrom true p (trimEnd cs) = lettersFrom true p cs := by
  have hsplit : cs = trimEnd cs ++ (cs.reverse.takeWhile isBlank).reverse := by
    rw [trimEnd, ← List.reverse_append, List.takeWhile_append_dropWhile, List.reverse_reverse]
  have hblank : ∀ c ∈ (cs.reverse.takeWhile isBlank).reverse, isBlank c = true := fun c hc =>
    List.mem_takeWhile_imp (List.mem_reverse.mp hc)
  conv_rhs => rw [hsplit, lettersFrom_append, lettersFrom_eq_nil hblank, List.append_nil]

namespace Reader

/-- The letters that are left to read. -/
def letters (r : Reader) : List Letter := lettersFrom r.source.skipsBlanks r.cursor r.rest

/-- The reader after the next letter. -/
def next (r : Reader) : Reader := r.token.skip 1

/-! ### The next letter -/

@[simp] theorem source_token (r : Reader) : r.token.source = r.source := by
  unfold token
  split <;> rfl

theorem rest_skipBlanks (r : Reader) : r.skipBlanks.rest = r.rest.dropWhile isBlank := by
  calc r.rest.drop (r.rest.takeWhile isBlank).length
      = (r.rest.takeWhile isBlank ++ r.rest.dropWhile isBlank).drop
          (r.rest.takeWhile isBlank).length := by rw [List.takeWhile_append_dropWhile]
    _ = r.rest.dropWhile isBlank := List.drop_left

theorem rest_token (r : Reader) :
    r.token.rest = if r.source.skipsBlanks then r.rest.dropWhile isBlank else r.rest := by
  unfold token
  split
  · exact r.rest_skipBlanks
  · rfl

/-- Reading takes the first letters away. -/
theorem letters_skip (r : Reader) (n : Nat) : r.letters =
    lettersFrom r.source.skipsBlanks r.cursor (r.rest.take n) ++ (r.skip n).letters := by
  unfold letters
  conv_lhs => rw [← List.take_append_drop n r.rest, lettersFrom_append]
  rfl

theorem letters_token (r : Reader) : r.token.letters = r.letters := by
  unfold token
  split
  · rename_i hskips
    have htake := List.prefix_iff_eq_take.mp (List.takeWhile_prefix isBlank (l := r.rest))
    rw [r.letters_skip (r.rest.takeWhile isBlank).length, ← htake, hskips,
      lettersFrom_eq_nil fun c hc => List.mem_takeWhile_imp hc]
    rfl
  · rfl

/-- The next token starts with a letter. -/
theorem letters_eq_cons {r : Reader} {c : Char} {cs : List Char} (h : r.token.rest = c :: cs) :
    r.letters = ⟨c, r.token.cursor, r.token.cursor.advance c⟩ :: r.next.letters := by
  have hletter : (r.source.skipsBlanks && isBlank c) = false := by
    cases hskips : r.source.skipsBlanks with
    | false => rfl
    | true =>
      have hrest := r.rest_skipBlanks
      rw [token, if_pos hskips] at h
      rw [h] at hrest
      simpa [← hrest] using List.head?_dropWhile_not isBlank r.rest
  rw [← letters_token, r.token.letters_skip 1, h, source_token]
  simp only [List.take_succ_cons, List.take_zero, lettersFrom, hletter]
  rfl

theorem letters_eq_nil {r : Reader} (h : r.token.rest = []) : r.letters = [] := by
  rw [← letters_token, letters, h]
  rfl

@[simp] theorem letters_next (r : Reader) : r.next.letters = r.letters.tail := by
  cases h : r.token.rest with
  | nil =>
    rw [letters_eq_nil h, next, letters, rest_skip, h]
    rfl
  | cons c cs => rw [letters_eq_cons h, List.tail_cons]

theorem peek?_token (r : Reader) : r.token.peek? = r.letters.head?.map (·.char) := by
  unfold peek?
  cases h : r.token.rest with
  | nil => rw [letters_eq_nil h]; rfl
  | cons c cs => rw [letters_eq_cons h]; rfl

/-- A letter stands between the next token and the reader after it. -/
theorem cursor_of_head? {r : Reader} {l : Letter} (h : r.letters.head? = some l) :
    l.start = r.token.cursor ∧ l.stop = r.next.cursor := by
  cases hrest : r.token.rest with
  | nil =>
    rw [letters_eq_nil hrest] at h
    cases h
  | cons c cs =>
    rw [letters_eq_cons hrest] at h
    obtain rfl := Option.some.inj h
    refine ⟨rfl, ?_⟩
    show _ = r.token.cursor.advanceAll (r.token.rest.take 1)
    rw [hrest]
    rfl

/-- Reading a character as a token reads the next letter. -/
theorem readRune?_eq_some_iff {r next : Reader} {c : Char} {start : Position} :
    r.readRune? c = some (start, next) ↔
      ∃ l, r.letters.head? = some l ∧ l.char = c ∧ l.start = start ∧ r.next = next := by
  unfold readRune?
  simp only [peek?_token, Option.map_eq_some_iff]
  constructor
  · intro h
    split at h
    · rename_i hletter
      obtain ⟨l, hl, hc⟩ := hletter
      simp only [Option.some.injEq, Prod.mk.injEq] at h
      exact ⟨l, hl, hc, (cursor_of_head? hl).1.trans h.1, h.2⟩
    · cases h
  · rintro ⟨l, hl, hc, hstart, hnext⟩
    rw [if_pos ⟨l, hl, hc⟩, ← hstart, ← hnext, (cursor_of_head? hl).1]
    rfl

/-! ### The end of the text -/

/-- What is left to read reaches up to the end of what can be read. -/
def Fits (r : Reader) : Prop := r.cursor.offset + byteLength r.rest = r.source.limit

theorem Fits.skip {r : Reader} (h : r.Fits) (n : Nat) : (r.skip n).Fits := by
  have hsplit : byteLength (r.rest.take n) + byteLength (r.rest.drop n) = byteLength r.rest := by
    rw [← byteLength_append, List.take_append_drop]
  unfold Fits at h ⊢
  rw [offset_skip, rest_skip, source_skip]
  omega

theorem Fits.token {r : Reader} (h : r.Fits) : r.token.Fits := by
  obtain ⟨n, hn⟩ := r.exists_token_eq_skip
  rw [hn]
  exact h.skip n

theorem Fits.next {r : Reader} (h : r.Fits) : r.next.Fits := h.token.skip 1

theorem byteLength_eq_zero {cs : List Char} : byteLength cs = 0 ↔ cs = [] := by
  cases cs with
  | nil => simp [byteLength]
  | cons c cs =>
    have := c.utf8Size_pos
    simp only [byteLength, reduceCtorEq, iff_false]
    omega

/-- What is left to read is the end of the readable text. -/
theorem rest_suffix (r : Reader) : r.rest <:+ r.source.readable := by
  by_cases hne : r.rest = []
  · rw [hne]
    exact List.nil_suffix
  · obtain ⟨before, hsplit, -⟩ := exists_readable_eq hne
    exact ⟨before, hsplit.symm⟩

/-- Where something is left, a letter is left: what can be read does not end with a blank that is
skipped. -/
theorem rest_eq_nil_of_letters {r : Reader} (h : r.letters = []) : r.rest = [] := by
  rcases List.eq_nil_or_concat r.rest with hnil | ⟨before, c, hrest⟩
  · exact hnil
  · have hc : c ∈ r.rest := by simp [hrest]
    obtain ⟨hskips, hblank⟩ := isBlank_of_lettersFrom_eq_nil h hc
    have hreadable : r.source.readable = trimEnd r.source.text.toList := by
      rw [r.source.readable_eq, readablePart, if_pos hskips]
    obtain ⟨xs, hxs⟩ := r.rest_suffix
    have hlast : (trimEnd r.source.text.toList).getLast? = some c := by
      rw [← hreadable, ← hxs, hrest]
      simp
    rw [not_isBlank_of_getLast?_trimEnd hlast] at hblank
    cases hblank

/-- At the end nothing is left to read, and nowhere else. -/
theorem Fits.atEnd_iff_rest {r : Reader} (h : r.Fits) : r.atEnd = true ↔ r.rest = [] := by
  unfold Fits at h
  rw [Reader.atEnd_iff, ← byteLength_eq_zero]
  omega

/-- At the end no letter is left, and nowhere else. -/
theorem Fits.atEnd_iff {r : Reader} (h : r.Fits) : r.atEnd = true ↔ r.letters = [] := by
  rw [h.atEnd_iff_rest]
  constructor
  · intro hnil
    rw [letters, hnil]
    rfl
  · exact rest_eq_nil_of_letters

/-! ### Texts -/

/-- What is read of a text: all of it, or what is left between blanks at its ends. -/
theorem rest_ofText (text : String) (skipsBlanks : Bool) : (ofText text skipsBlanks).rest =
    if skipsBlanks then (trimEnd text.toList).dropWhile isBlank else text.toList := by
  cases skipsBlanks with
  | true => exact rest_skipBlanks _
  | false => rfl

theorem fits_ofText (text : String) (skipsBlanks : Bool) : (ofText text skipsBlanks).Fits :=
  Fits.token (Nat.zero_add _)

/-- A text is read letter by letter. -/
theorem letters_ofText (text : String) (skipsBlanks : Bool) :
    (ofText text skipsBlanks).letters = Curtail.letters text skipsBlanks := by
  unfold ofText
  rw [letters_token]
  show lettersFrom skipsBlanks .start (readablePart text skipsBlanks) = _
  unfold readablePart Curtail.letters
  split
  · rename_i hskips
    rw [hskips, lettersFrom_trimEnd]
  · rfl

end Reader

/-- A character is found where it is the next letter. -/
theorem Terminal.find_rune_iff {c : Char} {token : String} {r : Reader} {m : Match} :
    (rune c token).find r = some m ↔
      ∃ l, r.letters.head? = some l ∧ l.char = c ∧ m = ⟨some (l.leaf token), r.next⟩ := by
  rw [find_rune, Option.map_eq_some_iff]
  constructor
  · rintro ⟨⟨start, next⟩, hread, rfl⟩
    obtain ⟨l, hl, rfl, rfl, rfl⟩ := Reader.readRune?_eq_some_iff.mp hread
    refine ⟨l, hl, rfl, ?_⟩
    rw [Letter.leaf, (Reader.cursor_of_head? hl).2]
  · rintro ⟨l, hl, rfl, rfl⟩
    refine ⟨(l.start, r.next), Reader.readRune?_eq_some_iff.mpr ⟨l, hl, rfl, rfl, rfl⟩, ?_⟩
    rw [Letter.leaf, (Reader.cursor_of_head? hl).2]

end Curtail
