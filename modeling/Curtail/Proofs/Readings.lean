/-
# What terminals read

What a terminal makes of the text depends on the characters ahead and on
whether there are any, never on where in the text that is. So its outcome is
one of a few shapes, filled with the places of the reader, and readers with the
same text ahead get the same shape.

Key definitions: `Reader.Parallel`, `Terminal.Reading`.
Key theorems: `Terminal.exists_reading`.
-/
import Curtail.Proofs.Reading

namespace Curtail

open Text

/-! ### Readers with the same text ahead -/

/-- Two readers with the same text ahead, perhaps at different places. -/
structure Reader.Parallel (r r' : Reader) : Prop where
  skips : r'.source.skipsBlanks = r.source.skipsBlanks
  rest : r'.rest = r.rest
  remaining : r'.remaining = r.remaining

namespace Reader

variable {r r' : Reader}

theorem Parallel.refl (r : Reader) : r.Parallel r := ⟨rfl, rfl, rfl⟩

theorem Parallel.skip (h : r.Parallel r') (n : Nat) : (r.skip n).Parallel (r'.skip n) where
  skips := h.skips
  rest := by rw [rest_skip, rest_skip, h.rest]
  remaining := by
    have hleft := h.remaining
    unfold Reader.remaining at hleft ⊢
    rw [offset_skip, offset_skip, h.rest, source_skip, source_skip, ← Nat.sub_sub, ← Nat.sub_sub,
      hleft]

/-- How many characters lie before the next token. -/
def toToken (r : Reader) : Nat :=
  if r.source.skipsBlanks then (r.rest.takeWhile isBlank).length else 0

theorem token_eq_skip (r : Reader) : r.token = r.skip r.toToken := by
  unfold token toToken
  split
  · rfl
  · exact r.skip_zero.symm

theorem Parallel.toToken (h : r.Parallel r') : r'.toToken = r.toToken := by
  unfold Reader.toToken
  rw [h.skips, h.rest]

theorem Parallel.token (h : r.Parallel r') : r.token.Parallel r'.token := by
  rw [token_eq_skip, token_eq_skip, h.toToken]
  exact h.skip _

theorem Parallel.atEnd (h : r.Parallel r') : r'.atEnd = r.atEnd := by
  unfold Reader.atEnd
  rw [h.remaining]

end Reader

/-! ### Shapes of outcomes -/

/-- What a terminal makes of the text ahead of a reader. -/
inductive Terminal.Reading where
  | nothing
  /-- The next token is malformed. -/
  | malformed (message : String)
  /-- A match of nothing. -/
  | here
  /-- A leaf over some characters, from the next token on. -/
  | token (name : String) (value : Value) (length : Nat)
  /-- A leaf over some characters, blank or not. -/
  | literal (name : String) (value : Value) (length : Nat)

namespace Terminal

/-- A reading as the outcome at a reader. -/
def Reading.outcome (r : Reader) : Reading → Outcome
  | nothing => ∅
  | malformed message => .failed (.parse r.token.cursor message)
  | here => .matched ⟨none, r⟩
  | token name value length => leaf name value r.token.cursor (r.token.skip length)
  | literal name value length => leaf name value r.cursor (r.skip length)

variable {r : Reader}

theorem lex?_parallel {r' : Reader} (h : r.Parallel r') (scan : List Char → Option Nat) :
    r'.lex? scan =
      (scan r.token.rest).map fun n => (r'.token.cursor, r.token.rest.take n, r'.token.skip n) := by
  simp only [Reader.lex?, h.token.rest]

theorem readWord?_parallel {r' : Reader} (h : r.Parallel r') (word : String) :
    r'.readWord? word =
      if !word.toList.isEmpty && word.toList.isPrefixOf r.token.rest &&
          Reader.wordEnds word.toList (r.token.rest.drop word.toList.length) then
        some (r'.token.cursor, r'.token.skip word.toList.length)
      else none := by
  simp only [Reader.readWord?, h.token.rest]

/-- The reading of a word as a token with a given value. -/
theorem exists_reading_word (word token : String) (value : Value) (r : Reader) :
    ∃ x : Reading, ∀ r', r.Parallel r' → leafOf token value (r'.readWord? word) = x.outcome r' := by
  by_cases hword : (!word.toList.isEmpty && word.toList.isPrefixOf r.token.rest &&
      Reader.wordEnds word.toList (r.token.rest.drop word.toList.length)) = true
  · refine ⟨.token token value word.toList.length, fun r' h => ?_⟩
    rw [readWord?_parallel h, if_pos hword]
    rfl
  · refine ⟨.nothing, fun r' h => ?_⟩
    rw [readWord?_parallel h, if_neg hword]
    rfl

/-- What is scanned is the same for readers with the same text ahead: nothing, or so many
characters. -/
theorem exists_reading_lex (scan : List Char → Option Nat) {read : Reader → Outcome}
    (hnone : ∀ r : Reader, r.lex? scan = none → read r = ∅)
    (hsome : ∀ (r : Reader) n, scan r.token.rest = some n → ∃ x : Reading, ∀ r', r.Parallel r' →
      r'.lex? scan = some (r'.token.cursor, r.token.rest.take n, r'.token.skip n) →
      read r' = x.outcome r') (r : Reader) :
    ∃ x : Reading, ∀ r', r.Parallel r' → read r' = x.outcome r' := by
  cases hscan : scan r.token.rest with
  | none =>
    refine ⟨.nothing, fun r' h => ?_⟩
    rw [hnone r' (by rw [lex?_parallel h, hscan]; rfl)]
    rfl
  | some n =>
    obtain ⟨x, hx⟩ := hsome r n hscan
    exact ⟨x, fun r' h => hx r' h (by rw [lex?_parallel h, hscan]; rfl)⟩

theorem exists_reading_integer (r : Reader) :
    ∃ x : Reading, ∀ r', r.Parallel r' → readInteger r' = x.outcome r' := by
  refine exists_reading_lex Lexeme.scanInteger? (fun r h => ?_) (fun r n _ => ?_) r
  · simp only [readInteger, h]
  · by_cases hpoint : (r.token.skip n).peek? = some '.'
    · refine ⟨.nothing, fun r' h hlex => ?_⟩
      have hpoint' : (r'.token.skip n).peek? = some '.' := by
        rw [← hpoint, Reader.peek?, Reader.peek?, (h.token.skip n).rest]
      simp only [readInteger, hlex, if_pos hpoint']
      rfl
    · have hpoint' : ∀ r', r.Parallel r' → ¬ (r'.token.skip n).peek? = some '.' := fun r' h => by
        rwa [Reader.peek?, (h.token.skip n).rest]
      cases hvalue : Lexeme.toWord? (Lexeme.integerValue (r.token.rest.take n)) with
      | some value =>
        refine ⟨.token "INT" (.int value) n, fun r' h hlex => ?_⟩
        simp only [readInteger, hlex, if_neg (hpoint' r' h), hvalue]
        rfl
      | none =>
        refine ⟨.malformed ("integer value out of range: " ++ String.ofList (r.token.rest.take n)),
          fun r' h hlex => ?_⟩
        simp only [readInteger, hlex, if_neg (hpoint' r' h), hvalue]
        rfl

theorem exists_reading_quoted (r : Reader) :
    ∃ x : Reading, ∀ r', r.Parallel r' → readQuoted r' = x.outcome r' := by
  refine exists_reading_lex Lexeme.scanQuoted? (fun r h => ?_) (fun r n _ => ?_) r
  · simp only [readQuoted, h]
  · cases htext : Lexeme.unescape (Lexeme.body (r.token.rest.take n)) with
    | ok cs =>
      refine ⟨.token "STRING" (.text (String.ofList cs)) n, fun r' h hlex => ?_⟩
      simp only [readQuoted, hlex, htext]
      rfl
    | error flaw =>
      refine ⟨.malformed flaw.message, fun r' h hlex => ?_⟩
      simp only [readQuoted, hlex, htext]
      rfl

theorem exists_reading_pattern (token : String) (p : Pattern) (group : Nat) (r : Reader) :
    ∃ x : Reading, ∀ r', r.Parallel r' → readGroup token p group r' = x.outcome r' := by
  cases hmatch : p.match? r.token.rest with
  | none =>
    refine ⟨.nothing, fun r' h => ?_⟩
    simp only [readGroup, readPattern?, h.token.rest, hmatch, Option.map_none]
    rfl
  | some x =>
    obtain ⟨length, groups⟩ := x
    have hread : ∀ r', r.Parallel r' →
        readPattern? p r' = some (r'.token.cursor, groups, r'.token.skip length) := fun r' h => by
      simp only [readPattern?, h.token.rest, hmatch, Option.map_some]
    have hlength : ∀ r', r.Parallel r' → (r'.token.cursor.offset <
        (r'.token.skip length).cursor.offset ↔ 0 < byteLength (r.token.rest.take length)) :=
      fun r' h => by rw [Reader.offset_skip, h.token.rest]; omega
    by_cases hpos : 0 < byteLength (r.token.rest.take length)
    · refine ⟨.token token (.text (String.ofList ((groups[group]?).getD []))) length,
        fun r' h => ?_⟩
      simp only [readGroup, hread r' h, if_pos ((hlength r' h).mpr hpos)]
      rfl
    · refine ⟨.nothing, fun r' h => ?_⟩
      simp only [readGroup, hread r' h, if_neg (mt (hlength r' h).mp hpos)]
      rfl

/-- A terminal makes the same of the text at all readers with the same text ahead. -/
theorem exists_reading (t : Terminal) (r : Reader) :
    ∃ x : Reading, ∀ r', r.Parallel r' → t.read r' = x.outcome r' := by
  cases t with
  | integer => exact exists_reading_integer r
  | fraction =>
    refine exists_reading_lex Lexeme.scanFraction? (fun r h => ?_) (fun r n _ => ?_) r
    · simp only [read, readFraction, h]
    · refine ⟨.token "FLOAT" (.float (Decimal.ofLiteral (r.token.rest.take n))) n, fun r' h hlex => ?_⟩
      simp only [read, readFraction, hlex]
      rfl
  | truth =>
    refine exists_reading_lex Lexeme.scanTruth? (fun r h => ?_) (fun r n _ => ?_) r
    · simp only [read, readTruth, h]
    · refine ⟨.token "BOOL" (.bool ((r.token.rest.take n).head? == some 't')) n,
        fun r' h hlex => ?_⟩
      simp only [read, readTruth, hlex]
      rfl
  | quoted => exact exists_reading_quoted r
  | rune c token =>
    by_cases hc : r.token.peek? = some c
    · refine ⟨.token token (.char c) 1, fun r' h => ?_⟩
      have hc' : r'.token.peek? = some c := by rwa [Reader.peek?, h.token.rest]
      simp only [read, Reader.readRune?, if_pos hc']
      rfl
    · refine ⟨.nothing, fun r' h => ?_⟩
      have hc' : ¬ r'.token.peek? = some c := by rwa [Reader.peek?, h.token.rest]
      simp only [read, Reader.readRune?, if_neg hc']
      rfl
  | word w token value => exact exists_reading_word w token value r
  | nil w => exact exists_reading_word w "NIL" .nil r
  | pattern token _ p group => exact exists_reading_pattern token p group r
  | finish =>
    cases hend : r.atEnd with
    | true => exact ⟨.here, fun r' h => by simp only [read, h.atEnd, hend, if_true]; rfl⟩
    | false =>
      exact ⟨.nothing, fun r' h => by
        simp only [read, h.atEnd, hend, Bool.false_eq_true, if_false]; rfl⟩
  | anyChar =>
    cases hpeek : r.peek? with
    | none =>
      refine ⟨.nothing, fun r' h => ?_⟩
      have hpeek' : r'.peek? = none := by rwa [Reader.peek?, h.rest]
      simp only [read, Reader.readChar?, hpeek', Option.map_none]
      rfl
    | some c =>
      refine ⟨.literal "CHAR" (.char c) 1, fun r' h => ?_⟩
      have hpeek' : r'.peek? = some c := by rwa [Reader.peek?, h.rest]
      simp only [read, Reader.readChar?, hpeek', Option.map_some]
      rfl
  | empty => exact ⟨.here, fun _ _ => rfl⟩

end Terminal

end Curtail
