/-
# Tokens

Most terminals read a token: some characters from the next token on, made into
one leaf. What a token can start with tells most of them apart, so where one
matches, many others cannot.

Key definitions: `Terminal.isToken`, `Terminal.opens`, `token?`.
Key theorems: `Terminal.find_eq_some`, `token?_behind_blanks`, `token?_past`,
`token?_eq_none`.
-/
import Curtail.Proofs.Letters

namespace Curtail

open Text

/-! ### Scanners -/

namespace Lexeme

variable {cs : List Char} {n : Nat}

theorem runLength_pos {p : Char → Bool} (h : 0 < runLength p cs) :
    ∃ c cs', cs = c :: cs' ∧ p c = true := by
  cases cs with
  | nil => cases h
  | cons c cs =>
    refine ⟨c, cs, rfl, ?_⟩
    cases hc : p c with
    | true => rfl
    | false => simp [runLength, hc] at h

theorem scanUnsigned?_pos (h : scanUnsigned? cs = some n) :
    0 < n ∧ ∃ c cs', cs = c :: cs' ∧ c.isDigit = true := by
  unfold scanUnsigned? at h
  split at h
  · simp only at h
    split at h <;> obtain rfl := Option.some.inj h <;> exact ⟨by omega, _, _, rfl, rfl⟩
  · split at h
    · rename_i hc
      obtain rfl := Option.some.inj h
      exact ⟨by omega, _, _, rfl, hc⟩
    · cases h
  · cases h

theorem scanUnsignedFraction?_pos (h : scanUnsignedFraction? cs = some n) :
    0 < n ∧ ∃ c cs', cs = c :: cs' ∧ (c.isDigit || c == '.') = true := by
  unfold scanUnsignedFraction? at h
  simp only at h
  rcases Nat.eq_zero_or_pos (runLength Char.isDigit cs) with hzero | hpos
  · rw [hzero] at h
    simp only [List.drop_zero] at h
    split at h
    · split at h
      · cases h
      · obtain rfl := Option.some.inj h
        exact ⟨by omega, _, _, rfl, by simp⟩
    · cases h
  · obtain ⟨c, cs', rfl, hc⟩ := runLength_pos hpos
    refine ⟨?_, c, cs', rfl, by simp [hc]⟩
    split at h
    · split at h
      · cases h
      · obtain rfl := Option.some.inj h
        omega
    · split at h
      · cases h
      · obtain ⟨k, -, rfl⟩ := Option.map_eq_some_iff.mp h
        omega

/-- A sign may stand in front. -/
theorem signed_pos {scan : List Char → Option Nat} {p : Char → Bool}
    (hscan : ∀ {cs n}, scan cs = some n → 0 < n ∧ ∃ c cs', cs = c :: cs' ∧ p c = true)
    (h : (scan (cs.drop (signLength cs))).map (signLength cs + ·) = some n) :
    0 < n ∧ ∃ c cs', cs = c :: cs' ∧ (isSign c || p c) = true := by
  obtain ⟨k, hk, rfl⟩ := Option.map_eq_some_iff.mp h
  obtain ⟨hpos, c, cs', hcs, hc⟩ := hscan hk
  refine ⟨by omega, ?_⟩
  cases cs with
  | nil => simp at hcs
  | cons c' cs₀ =>
    refine ⟨c', cs₀, rfl, ?_⟩
    cases hs : isSign c' with
    | true => rfl
    | false =>
      simp only [signLength, List.head?_cons, Option.any_some, hs, Bool.false_eq_true, if_false,
        List.drop_zero, List.cons.injEq] at hcs
      rw [hcs.1, hc]
      rfl

theorem scanTruth?_pos (h : scanTruth? cs = some n) :
    0 < n ∧ ∃ c cs', cs = c :: cs' ∧ (c == 't' || c == 'f') = true := by
  have hhead : ∀ {c word}, (c :: word).isPrefixOf cs = true → ∃ cs', cs = c :: cs' := by
    intro c word hprefix
    obtain ⟨more, rfl⟩ := List.isPrefixOf_iff_prefix.mp hprefix
    exact ⟨_, rfl⟩
  unfold scanTruth? at h
  simp only [Bool.and_eq_true] at h
  split at h
  · rename_i hbare
    obtain rfl := Option.some.inj h
    obtain ⟨cs', rfl⟩ := hhead hbare.1
    exact ⟨by omega, _, _, rfl, by simp⟩
  · split at h
    · rename_i hbare
      obtain rfl := Option.some.inj h
      obtain ⟨cs', rfl⟩ := hhead hbare.1
      exact ⟨by omega, _, _, rfl, by simp⟩
    · cases h

theorem scanQuoted?_pos (h : scanQuoted? cs = some n) :
    0 < n ∧ ∃ c cs', cs = c :: cs' ∧ (c == '"') = true := by
  unfold scanQuoted? at h
  split at h
  · obtain ⟨k, -, rfl⟩ := Option.map_eq_some_iff.mp h
    exact ⟨by omega, _, _, rfl, rfl⟩
  · cases h

end Lexeme

/-! ### Terminals -/

namespace Terminal

/-- Whether a terminal reads a token: at least one character, from the next token on, as one leaf. -/
def isToken : Terminal → Bool
  | integer | fraction | truth | quoted | rune _ _ | word _ _ _ | nil _ => true
  | pattern _ _ _ _ | finish | anyChar | empty => false

/-- Whether a token can start with a character. -/
def opens : Terminal → Char → Bool
  | integer, c => Lexeme.isSign c || c.isDigit
  | fraction, c => Lexeme.isSign c || (c.isDigit || c == '.')
  | truth, c => c == 't' || c == 'f'
  | quoted, c => c == '"'
  | rune c' _, c => c == c'
  | word w _ _, c => w.toList.head? == some c
  | nil w, c => w.toList.head? == some c
  | _, _ => true

/-- `n` characters of the next token were read as a leaf with the value `v`. -/
structure Took (t : Terminal) (r : Reader) (n : Nat) (v : Value) (m : Match) : Prop where
  pos : 0 < n
  opens : ∃ c, r.token.peek? = some c ∧ t.opens c = true
  leaf : ∃ token, m = ⟨some (.leaf token v r.token.cursor (r.token.skip n).cursor), r.token.skip n⟩

variable {t : Terminal} {r : Reader} {m : Match}

theorem lex?_eq_some {scan : List Char → Option Nat} {start : Position} {literal : List Char}
    {next : Reader} : r.lex? scan = some (start, literal, next) ↔ ∃ n, scan r.token.rest = some n ∧
      start = r.token.cursor ∧ literal = r.token.rest.take n ∧ next = r.token.skip n := by
  unfold Reader.lex?
  rw [Option.map_eq_some_iff]
  constructor
  · rintro ⟨n, hn, heq⟩
    simp only [Prod.mk.injEq] at heq
    exact ⟨n, hn, heq.1.symm, heq.2.1.symm, heq.2.2.symm⟩
  · rintro ⟨n, hn, rfl, rfl, rfl⟩
    exact ⟨n, hn, rfl⟩

/-- A token that a scanner measured. -/
theorem took_of_lex? {scan : List Char → Option Nat}
    (hscan : ∀ {cs n}, scan cs = some n → 0 < n ∧ ∃ c cs', cs = c :: cs' ∧ t.opens c = true)
    {start : Position} {literal : List Char} {next : Reader} {token : String} {v : Value}
    (hlex : r.lex? scan = some (start, literal, next))
    (hm : (leaf token v start next).results.items.head? = some m) : ∃ n, t.Took r n v m := by
  obtain ⟨n, hn, rfl, -, rfl⟩ := lex?_eq_some.mp hlex
  obtain ⟨hpos, c, cs', hcs, hc⟩ := hscan hn
  refine ⟨n, hpos, ⟨c, by rw [Reader.peek?, hcs]; rfl, hc⟩, token, ?_⟩
  exact (Option.some.inj hm).symm

theorem took_of_leafOf {token : String} {v : Value} {read? : Option (Position × Reader)}
    (hread : ∀ {start next}, read? = some (start, next) → start = r.token.cursor ∧
      ∃ n c, next = r.token.skip n ∧ 0 < n ∧ r.token.peek? = some c ∧ t.opens c = true)
    (hm : (leafOf token v read?).results.items.head? = some m) : ∃ n, t.Took r n v m := by
  cases hr : read? with
  | none => rw [hr] at hm; cases hm
  | some x =>
    obtain ⟨start, next⟩ := x
    obtain ⟨rfl, n, c, rfl, hpos, hpeek, hopens⟩ := hread hr
    rw [hr] at hm
    exact ⟨n, hpos, ⟨c, hpeek, hopens⟩, token, (Option.some.inj hm).symm⟩

theorem readWord?_eq_some {word : String} {start : Position} {next : Reader}
    (h : r.readWord? word = some (start, next)) : start = r.token.cursor ∧
      ∃ n c, next = r.token.skip n ∧ 0 < n ∧ r.token.peek? = some c ∧
        (word.toList.head? == some c) = true := by
  simp only [Reader.readWord?, Bool.and_eq_true] at h
  split at h
  · rename_i hword
    obtain ⟨⟨hne, hprefix⟩, -⟩ := hword
    simp only [Option.some.injEq, Prod.mk.injEq] at h
    obtain ⟨rfl, rfl⟩ := h
    obtain ⟨more, hmore⟩ := List.isPrefixOf_iff_prefix.mp hprefix
    cases hw : word.toList with
    | nil => simp [hw] at hne
    | cons c cs =>
      refine ⟨rfl, _, c, rfl, Nat.succ_pos _, ?_, by simp⟩
      rw [Reader.peek?, ← hmore, hw]
      rfl
  · cases h

theorem readRune?_eq_some {c : Char} {start : Position} {next : Reader}
    (h : r.readRune? c = some (start, next)) : start = r.token.cursor ∧ next = r.token.skip 1 ∧
      r.token.peek? = some c := by
  simp only [Reader.readRune?] at h
  split at h
  · rename_i hpeek
    simp only [Option.some.injEq, Prod.mk.injEq] at h
    exact ⟨h.1.symm, h.2.symm, hpeek⟩
  · cases h

/-- What a token is when it was found. -/
theorem find_eq_some (ht : t.isToken = true) (h : t.find r = some m) : ∃ n v, t.Took r n v m := by
  unfold find at h
  cases t with
  | integer =>
    simp only [read, readInteger] at h
    split at h
    · cases h
    · rename_i hlex
      split at h
      · cases h
      · split at h
        · obtain ⟨n, hn⟩ := took_of_lex? (t := integer)
            (fun h => Lexeme.signed_pos Lexeme.scanUnsigned?_pos h) hlex h
          exact ⟨n, _, hn⟩
        · cases h
  | fraction =>
    simp only [read, readFraction] at h
    split at h
    · cases h
    · rename_i hlex
      obtain ⟨n, hn⟩ := took_of_lex? (t := fraction)
        (fun h => Lexeme.signed_pos Lexeme.scanUnsignedFraction?_pos h) hlex h
      exact ⟨n, _, hn⟩
  | truth =>
    simp only [read, readTruth] at h
    split at h
    · cases h
    · rename_i hlex
      obtain ⟨n, hn⟩ := took_of_lex? (t := truth) (fun h => Lexeme.scanTruth?_pos h) hlex h
      exact ⟨n, _, hn⟩
  | quoted =>
    simp only [read, readQuoted] at h
    split at h
    · cases h
    · rename_i hlex
      split at h
      · obtain ⟨n, hn⟩ := took_of_lex? (t := quoted) (fun h => Lexeme.scanQuoted?_pos h) hlex h
        exact ⟨n, _, hn⟩
      · cases h
  | rune c token =>
    obtain ⟨n, hn⟩ := took_of_leafOf (t := rune c token) (fun hread => by
      obtain ⟨hstart, hnext, hpeek⟩ := readRune?_eq_some hread
      exact ⟨hstart, 1, c, hnext, Nat.one_pos, hpeek, by simp [opens]⟩) h
    exact ⟨n, _, hn⟩
  | word w token value =>
    obtain ⟨n, hn⟩ := took_of_leafOf (t := word w token value) readWord?_eq_some h
    exact ⟨n, _, hn⟩
  | nil w =>
    obtain ⟨n, hn⟩ := took_of_leafOf (t := nil w) readWord?_eq_some h
    exact ⟨n, _, hn⟩
  | pattern _ _ _ _ | finish | anyChar | empty => cases ht

end Terminal

/-! ### Values of tokens -/

/-- The value of the token that a terminal reads, and the reader after it. -/
def token? (t : Terminal) (r : Reader) : Option (Value × Reader) :=
  (t.find r).bind fun m =>
    match m.node with
    | some (.leaf _ v _ _) => some (v, m.reader)
    | _ => none

variable {t t' : Terminal} {r r' : Reader} {v : Value}

theorem token?_eq_some (ht : t.isToken = true) (h : token? t r = some (v, r')) :
    ∃ m n, t.find r = some m ∧ t.Took r n v m ∧ m.reader = r' := by
  obtain ⟨m, hm, hv⟩ := Option.bind_eq_some_iff.mp h
  obtain ⟨n, v', htook⟩ := Terminal.find_eq_some ht hm
  obtain ⟨token, rfl⟩ := htook.leaf
  simp only [Option.some.injEq, Prod.mk.injEq] at hv
  obtain ⟨rfl, rfl⟩ := hv
  exact ⟨_, n, hm, htook, rfl⟩

/-- A token is read behind blanks, if the source skips them: one character or more of what is left
there. -/
theorem token?_behind_blanks (ht : t.isToken = true) (h : token? t r = some (v, r')) :
    ∃ n, 0 < n ∧ r' = r.token.skip n ∧
      r'.rest = (if r.source.skipsBlanks then r.rest.dropWhile isBlank else r.rest).drop n := by
  obtain ⟨m, n, -, ⟨hpos, -, token, rfl⟩, rfl⟩ := token?_eq_some ht h
  exact ⟨n, hpos, rfl, by rw [← r.rest_token, ← Reader.rest_skip]⟩

theorem token?_opens (ht : t.isToken = true) (h : token? t r = some (v, r')) :
    ∃ c, r.token.peek? = some c ∧ t.opens c = true := by
  obtain ⟨m, n, -, htook, -⟩ := token?_eq_some ht h
  exact htook.opens

/-- A token is not empty. -/
theorem token?_past (ht : t.isToken = true) (h : token? t r = some (v, r')) : r.Past r' := by
  obtain ⟨m, n, -, ⟨hpos, ⟨c, hpeek, -⟩, token, rfl⟩, rfl⟩ := token?_eq_some ht h
  obtain ⟨k, hk⟩ := r.exists_token_eq_skip
  have htoken : r.Ahead r.token := hk ▸ r.ahead_skip k
  refine ⟨htoken.trans (r.token.ahead_skip n), ?_⟩
  obtain ⟨cs, hcs⟩ := List.head?_eq_some_iff.mp hpeek
  obtain ⟨n, rfl⟩ := Nat.exists_eq_add_one.mpr hpos
  have := c.utf8Size_pos
  have := htoken.le
  show r.cursor.offset < (r.token.skip (n + 1)).cursor.offset
  rw [Reader.offset_skip, hcs, List.take_succ_cons, byteLength]
  omega

/-- Where no token can start, none is read. -/
theorem token?_eq_none_of_peek? (ht : t.isToken = true)
    (h : ∀ c, r.token.peek? = some c → t.opens c = false) : token? t r = none := by
  cases hx : token? t r with
  | none => rfl
  | some x =>
    obtain ⟨c, hpeek, hopens⟩ := token?_opens ht hx
    rw [h c hpeek] at hopens
    cases hopens

/-- Of two tokens that start differently only one can be read. -/
theorem token?_eq_none (ht : t.isToken = true) (ht' : t'.isToken = true)
    (hapart : ∀ c, t.opens c = true → t'.opens c = false) (h : token? t r = some (v, r')) :
    token? t' r = none := by
  obtain ⟨c, hpeek, hopens⟩ := token?_opens ht h
  refine token?_eq_none_of_peek? ht' fun c' hpeek' => ?_
  obtain rfl : c = c' := Option.some.inj (hpeek.symm.trans hpeek')
  exact hapart c hopens

/-- A quoted token is a text. -/
theorem token?_quoted (h : token? .quoted r = some (v, r')) : ∃ key, v = .text key := by
  obtain ⟨m, n, hm, htook, -⟩ := token?_eq_some rfl h
  obtain ⟨token, rfl⟩ := htook.leaf
  simp only [Terminal.find, Terminal.read, Terminal.readQuoted] at hm
  split at hm
  · cases hm
  · split at hm
    · have := Option.some.inj hm
      simp only [Match.mk.injEq, Option.some.injEq, Node.leaf.injEq] at this
      exact ⟨_, this.1.2.1.symm⟩
    · cases hm

end Curtail
