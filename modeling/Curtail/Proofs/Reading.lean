/-
# Reading goes ahead

Reading moves a reader over some of the characters it can read, so it stays in
its source, never goes back and never passes the end of what can be read. That
is all that bounds a parse: after a step that read something fewer bytes are
left. Every terminal leaves its reader that way, wherever it stands, also
inside a character or past the end, where there is nothing to read.

Key definitions: `Reader.Ahead`.
Key theorems: `Reader.ahead_skip`, `Reader.Ahead.remaining_lt`,
`Terminal.skip_of_mem_read`.
-/
import Curtail.Parse.Terminal

namespace Curtail

open Text

namespace Reader

/-- What can be read is settled by the source and the place in it. -/
theorem ext_cursor {r r' : Reader} (hs : r.source = r'.source) (hc : r.cursor = r'.cursor) :
    r = r' := by
  obtain ⟨source, cursor, rest, hrest⟩ := r
  obtain ⟨source', cursor', rest', hrest'⟩ := r'
  simp only at hs hc
  subst hs hc
  have : rest = rest' := hrest.trans hrest'.symm
  subst this
  rfl

/-! ### Skipping -/

@[simp] theorem skip_zero (r : Reader) : r.skip 0 = r := ext_cursor rfl rfl

theorem skip_skip (r : Reader) (m n : Nat) : (r.skip m).skip n = r.skip (m + n) := by
  refine ext_cursor rfl ?_
  show (r.cursor.advanceAll (r.rest.take m)).advanceAll ((r.rest.drop m).take n) =
    r.cursor.advanceAll (r.rest.take (m + n))
  rw [List.take_add]
  exact (List.foldl_append ..).symm

/-- The next token is some blanks away. -/
theorem exists_token_eq_skip (r : Reader) : ∃ n, r.token = r.skip n := by
  unfold token
  split
  · exact ⟨_, rfl⟩
  · exact ⟨0, r.skip_zero.symm⟩

theorem skip_token (r : Reader) (n : Nat) : ∃ m, r.token.skip n = r.skip m := by
  obtain ⟨k, hk⟩ := r.exists_token_eq_skip
  exact ⟨k + n, by rw [hk, skip_skip]⟩

/-- Where nothing is left to read, a reader does not move. -/
theorem skip_of_rest_eq_nil {r : Reader} (h : r.rest = []) (n : Nat) : r.skip n = r := by
  refine ext_cursor rfl ?_
  show r.cursor.advanceAll (r.rest.take n) = r.cursor
  rw [h, List.take_nil]
  rfl

/-- Where something can be read, the readable text ends with it, after the bytes passed. -/
theorem exists_readable_eq {r : Reader} (h : r.rest ≠ []) :
    ∃ before, r.source.readable = before ++ r.rest ∧ byteLength before = r.cursor.offset := by
  have hrest := r.rest_eq
  unfold Source.readableFrom at hrest
  obtain ⟨before, hsplit, hlen⟩ := exists_append_of_dropBytes (hrest ▸ h)
  exact ⟨before, hsplit.trans (by rw [hrest]), hlen⟩

theorem offset_add_byteLength_rest (r : Reader) (h : r.rest ≠ []) :
    r.cursor.offset + byteLength r.rest = r.source.limit := by
  obtain ⟨before, hsplit, hlen⟩ := exists_readable_eq h
  rw [r.source.limit_eq, hsplit, byteLength_append, hlen]

/-! ### Readers ahead of a reader -/

/-- A reader in the same source that did not go back, and is not past the end if it moved. -/
structure Ahead (r r' : Reader) : Prop where
  source : r'.source = r.source
  le : r.cursor.offset ≤ r'.cursor.offset
  inside : r.cursor.offset < r'.cursor.offset → r'.cursor.offset ≤ r.source.limit

theorem Ahead.refl (r : Reader) : r.Ahead r := ⟨rfl, Nat.le_refl _, fun h => absurd h (Nat.lt_irrefl _)⟩

theorem Ahead.trans {r r' r'' : Reader} (h : r.Ahead r') (h' : r'.Ahead r'') : r.Ahead r'' where
  source := h'.source.trans h.source
  le := Nat.le_trans h.le h'.le
  inside hlt := by
    by_cases hmove : r'.cursor.offset < r''.cursor.offset
    · have := h'.inside hmove
      rwa [h.source] at this
    · have heq : r''.cursor.offset = r'.cursor.offset := by have := h'.le; omega
      rw [heq] at hlt ⊢
      exact h.inside hlt

/-- Fewer bytes are left after a step that read something. -/
theorem Ahead.remaining_lt {r r' : Reader} (h : r.Ahead r')
    (hlt : r.cursor.offset < r'.cursor.offset) : r'.remaining < r.remaining := by
  have := h.inside hlt
  unfold remaining
  rw [h.source]
  omega

/-- As many bytes are left after a step that read nothing. -/
theorem Ahead.remaining_eq {r r' : Reader} (h : r.Ahead r')
    (hle : ¬ r.cursor.offset < r'.cursor.offset) : r'.remaining = r.remaining := by
  have := h.le
  unfold remaining
  rw [h.source]
  omega

/-- A reader further on in the same source, after something was read. -/
structure Past (r r' : Reader) : Prop extends r.Ahead r' where
  lt : r.cursor.offset < r'.cursor.offset

theorem Past.remaining {r r' : Reader} (h : r.Past r') : r'.remaining < r.remaining :=
  h.toAhead.remaining_lt h.lt

theorem Past.trans_ahead {r r' r'' : Reader} (h : r.Past r') (h' : r'.Ahead r'') : r.Past r'' :=
  ⟨h.toAhead.trans h', Nat.lt_of_lt_of_le h.lt h'.le⟩

theorem Past.trans {r r' r'' : Reader} (h : r.Past r') (h' : r'.Past r'') : r.Past r'' :=
  h.trans_ahead h'.toAhead

theorem ahead_skip (r : Reader) (n : Nat) : r.Ahead (r.skip n) where
  source := rfl
  le := by rw [offset_skip]; omega
  inside hlt := by
    rw [offset_skip] at hlt ⊢
    have hne : r.rest ≠ [] := by
      intro hnil
      simp [hnil, byteLength] at hlt
    have hfit := r.offset_add_byteLength_rest hne
    have hsplit : byteLength (r.rest.take n) + byteLength (r.rest.drop n) = byteLength r.rest := by
      rw [← byteLength_append, List.take_append_drop]
    omega

theorem ahead_token (r : Reader) : r.Ahead r.token := by
  obtain ⟨k, hk⟩ := r.exists_token_eq_skip
  rw [hk]
  exact r.ahead_skip k

/-- A character that was read lies behind. -/
theorem lt_of_readRune? {r : Reader} {c : Char} {start : Position} {next : Reader}
    (h : r.readRune? c = some (start, next)) : r.cursor.offset < next.cursor.offset := by
  simp only [readRune?] at h
  split at h
  · rename_i hpeek
    simp only [Option.some.injEq, Prod.mk.injEq] at h
    rw [← h.2, offset_skip]
    have hle := r.ahead_token.le
    have hpos : 0 < byteLength (r.token.rest.take 1) := by
      unfold peek? at hpeek
      obtain ⟨rest, hrest⟩ := List.head?_eq_some_iff.mp hpeek
      have := c.utf8Size_pos
      rw [hrest, List.take_succ_cons, byteLength]
      omega
    omega
  · cases h

theorem remaining_le_limit (r : Reader) : r.remaining ≤ r.source.limit := Nat.sub_le _ _

end Reader

/-! ### Terminals -/

namespace Terminal

variable {r : Reader} {m : Match}

theorem reader_of_mem_leaf {token : String} {value : Value} {start : Position} {next : Reader}
    (h : m ∈ (leaf token value start next).results.items) : m.reader = next := by
  have hm : m = ⟨some (.leaf token value start next.cursor), next⟩ := by
    simpa [leaf, Outcome.matched] using h
  rw [hm]

theorem reader_of_mem_leafOf {token : String} {value : Value} {read? : Option (Position × Reader)}
    (h : m ∈ (leafOf token value read?).results.items) : ∃ start, read? = some (start, m.reader) := by
  cases read? with
  | none => cases h
  | some x => exact ⟨x.1, by rw [reader_of_mem_leaf h]⟩

theorem skip_of_lex? {scan : List Char → Option Nat} {start : Position} {literal : List Char}
    {next : Reader} (h : r.lex? scan = some (start, literal, next)) : ∃ n, next = r.skip n := by
  unfold Reader.lex? at h
  obtain ⟨n, -, hn⟩ := Option.map_eq_some_iff.mp h
  simp only [Prod.mk.injEq] at hn
  obtain ⟨-, -, rfl⟩ := hn
  exact r.skip_token n

theorem skip_of_readRune? {c : Char} {start : Position} {next : Reader}
    (h : r.readRune? c = some (start, next)) : ∃ n, next = r.skip n := by
  simp only [Reader.readRune?] at h
  split at h
  · simp only [Option.some.injEq, Prod.mk.injEq] at h
    rw [← h.2]
    exact r.skip_token 1
  · cases h

theorem skip_of_readWord? {word : String} {start : Position} {next : Reader}
    (h : r.readWord? word = some (start, next)) : ∃ n, next = r.skip n := by
  simp only [Reader.readWord?] at h
  split at h
  · simp only [Option.some.injEq, Prod.mk.injEq] at h
    rw [← h.2]
    exact r.skip_token _
  · cases h

theorem skip_of_readPattern? {p : Pattern} {start : Position} {groups : List (List Char)}
    {next : Reader} (h : readPattern? p r = some (start, groups, next)) : ∃ n, next = r.skip n := by
  unfold readPattern? at h
  obtain ⟨x, -, hx⟩ := Option.map_eq_some_iff.mp h
  simp only [Prod.mk.injEq] at hx
  obtain ⟨-, -, rfl⟩ := hx
  exact r.skip_token _

/-- A terminal that matches has read some characters. -/
theorem skip_of_mem_read (t : Terminal) (h : m ∈ (t.read r).results.items) :
    ∃ n, m.reader = r.skip n := by
  cases t with
  | integer =>
    simp only [read, readInteger] at h
    split at h
    · cases h
    · rename_i hlex
      split at h
      · cases h
      · split at h
        · rw [reader_of_mem_leaf h]
          exact skip_of_lex? hlex
        · cases h
  | fraction =>
    simp only [read, readFraction] at h
    split at h
    · cases h
    · rename_i hlex
      rw [reader_of_mem_leaf h]
      exact skip_of_lex? hlex
  | truth =>
    simp only [read, readTruth] at h
    split at h
    · cases h
    · rename_i hlex
      rw [reader_of_mem_leaf h]
      exact skip_of_lex? hlex
  | quoted =>
    simp only [read, readQuoted] at h
    split at h
    · cases h
    · rename_i hlex
      split at h
      · rw [reader_of_mem_leaf h]
        exact skip_of_lex? hlex
      · cases h
  | rune c token =>
    obtain ⟨start, hread⟩ := reader_of_mem_leafOf h
    exact skip_of_readRune? hread
  | word w token value =>
    obtain ⟨start, hread⟩ := reader_of_mem_leafOf h
    exact skip_of_readWord? hread
  | nil w =>
    obtain ⟨start, hread⟩ := reader_of_mem_leafOf h
    exact skip_of_readWord? hread
  | pattern token name p group =>
    simp only [read, readGroup] at h
    split at h
    · cases h
    · rename_i hread
      split at h
      · rw [reader_of_mem_leaf h]
        exact skip_of_readPattern? hread
      · cases h
  | finish =>
    simp only [read] at h
    split at h
    · have hm : m = ⟨none, r⟩ := by simpa [Outcome.matched] using h
      exact ⟨0, by rw [hm, Reader.skip_zero]⟩
    · cases h
  | anyChar =>
    simp only [read] at h
    split at h
    · cases h
    · rename_i c next hread
      rw [reader_of_mem_leaf h]
      unfold Reader.readChar? at hread
      obtain ⟨c', -, hc⟩ := Option.map_eq_some_iff.mp hread
      simp only [Prod.mk.injEq] at hc
      exact ⟨1, hc.2.symm⟩
  | empty =>
    have hm : m = ⟨none, r⟩ := by simpa [read, Outcome.matched] using h
    exact ⟨0, by rw [hm, Reader.skip_zero]⟩

/-- Terminals go ahead. -/
theorem ahead_of_mem_read (t : Terminal) (h : m ∈ (t.read r).results.items) : r.Ahead m.reader := by
  obtain ⟨n, hn⟩ := t.skip_of_mem_read h
  rw [hn]
  exact r.ahead_skip n

/-- Terminals never refuse. -/
theorem curtailed_read (t : Terminal) (r : Reader) : (t.read r).curtailed = ∅ := by
  have hleafOf : ∀ token value read?, (leafOf token value read?).curtailed = ∅ := by
    intro token value read?
    cases read? <;> rfl
  cases t with
  | rune c token => exact hleafOf _ _ _
  | word w token value => exact hleafOf _ _ _
  | nil w => exact hleafOf _ _ _
  | integer =>
    simp only [read, readInteger]
    repeat' split
    all_goals rfl
  | fraction =>
    simp only [read, readFraction]
    split <;> rfl
  | truth =>
    simp only [read, readTruth]
    split <;> rfl
  | quoted =>
    simp only [read, readQuoted]
    repeat' split
    all_goals rfl
  | pattern token name p group =>
    simp only [read, readGroup]
    repeat' split
    all_goals rfl
  | finish =>
    simp only [read]
    split <;> rfl
  | anyChar =>
    simp only [read]
    split <;> rfl
  | empty => rfl

end Terminal

end Curtail
