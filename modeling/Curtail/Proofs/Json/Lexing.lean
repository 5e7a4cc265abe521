/-
# Tokens read back as what they were written for

A number, a word or a text in quotes reads back if the character after it
cannot continue it. A number written without leading zero is neither octal nor
hexadecimal, and without point or exponent it has no fraction. In a text in
quotes every escape is undone, and no bare quote ends it early.

Key definitions: `Text.continues`, `Text.Breaks`.
Key theorems: `token?_integer_written`, `token?_truth_written`,
`token?_null_written`, `token?_quoted_written`.
-/
import Curtail.Proofs.Tokens
import Curtail.Value.Text
import Mathlib.Tactic.IntervalCases

namespace Curtail

/-! ### What ends a token -/

namespace Text

/-- Whether a number or a word could go on with a character. -/
def continues (c : Char) : Bool :=
  isWord c || isIdentifier c || c.isDigit || Lexeme.isOctalDigit c || c == '.' || c == 'e' ||
    c == 'E' || c == 'x' || c == 'X'

/-- No number or word goes on into `rest`. -/
def Breaks (rest : List Char) : Prop := ∀ c, rest.head? = some c → continues c = false

/-- The code points in some ranges, one by one. -/
def Ranges.points (ranges : Ranges) : List Nat :=
  ranges.flatMap fun range => List.range' range.1 (range.2 + 1 - range.1)

theorem Ranges.mem_points {ranges : Ranges} {n : Nat} (h : ranges.has n = true) :
    n ∈ ranges.points := by
  induction ranges with
  | nil => cases h
  | cons range ranges ih =>
    obtain ⟨lo, hi⟩ := range
    rw [Ranges.has_cons, Bool.and_eq_true, Bool.or_eq_true, decide_eq_true_eq,
      decide_eq_true_eq] at h
    rw [Ranges.points, List.flatMap_cons, List.mem_append, List.mem_range'_1]
    obtain ⟨hlo, hhi | hrest⟩ := h
    · exact .inl ⟨hlo, by omega⟩
    · exact .inr (ih hrest)

theorem continues_of_isBlank {c : Char} (h : isBlank c = true) : continues c = false := by
  have hpoints : ∀ n ∈ whiteSpace.points, continues (Char.ofNat n) = false := by decide +kernel
  have := hpoints _ (Ranges.mem_points h)
  rwa [Char.ofNat_toNat] at this

variable {rest : List Char}

theorem breaks_nil : Breaks [] := nofun

theorem breaks_cons {c : Char} (h : continues c = false) : Breaks (c :: rest) := by
  rintro _ ⟨⟩
  exact h

/-- A class of characters that could go on ends where `rest` starts. -/
theorem Breaks.takeWhile_eq_nil (h : Breaks rest) {p : Char → Bool}
    (hp : ∀ c, continues c = false → p c = false) : rest.takeWhile p = [] := by
  cases rest with
  | nil => rfl
  | cons c rest => rw [List.takeWhile_cons_of_neg]; simp [hp c (h c rfl)]

theorem Breaks.any_head? (h : Breaks rest) {p : Char → Bool}
    (hp : ∀ c, continues c = false → p c = false) : rest.head?.any p = false := by
  cases rest with
  | nil => rfl
  | cons c rest => exact hp c (h c rfl)

theorem isWord_of_continues (c : Char) (h : continues c = false) : isWord c = false := by
  simp only [continues, Bool.or_eq_false_iff] at h
  exact h.1.1.1.1.1.1.1.1

theorem isIdentifier_of_continues (c : Char) (h : continues c = false) : isIdentifier c = false := by
  simp only [continues, Bool.or_eq_false_iff] at h
  exact h.1.1.1.1.1.1.1.2

theorem isDigit_of_continues (c : Char) (h : continues c = false) : c.isDigit = false := by
  simp only [continues, Bool.or_eq_false_iff] at h
  exact h.1.1.1.1.1.1.2

end Text

open Text

/-! ### Integers -/

namespace Lexeme

variable {rest digits : List Char}

theorem runLength_append {p : Char → Bool} (hdigits : ∀ c ∈ digits, p c = true)
    (hrest : rest.takeWhile p = []) : runLength p (digits ++ rest) = digits.length := by
  rw [runLength, List.takeWhile_append_of_pos hdigits, hrest, List.append_nil]

theorem isDigit_toDigits (n : Nat) : ∀ c ∈ Nat.toDigits 10 n, c.isDigit = true := fun _ hc =>
  Nat.isDigit_of_mem_toDigits (by decide) (by decide) hc

theorem isBlank_toDigits (n : Nat) (c : Char) (hc : c ∈ Nat.toDigits 10 n) : isBlank c = false := by
  cases hblank : isBlank c with
  | false => rfl
  | true =>
    have hdigit := isDigit_toDigits n c hc
    rw [isDigit_of_continues c (continues_of_isBlank hblank)] at hdigit
    cases hdigit

/-- No number starts with a sign. -/
theorem toDigits_eq_cons (n : Nat) :
    ∃ c cs, Nat.toDigits 10 n = c :: cs ∧ c ≠ '-' ∧ isSign c = false := by
  obtain ⟨c, cs, hcs⟩ := List.exists_cons_of_ne_nil (Nat.toDigits_ne_nil (n := n) (b := 10))
  have hdigit := isDigit_toDigits n c (hcs ▸ List.mem_cons_self)
  have hplus : c ≠ '+' := by rintro rfl; cases hdigit
  have hminus : c ≠ '-' := by rintro rfl; cases hdigit
  exact ⟨c, cs, hcs, hminus, by simp [isSign, hplus, hminus]⟩

/-- The digits of a positive number do not start with a zero. -/
theorem head_toDigits {n : Nat} (h : 0 < n) : ∃ c cs, Nat.toDigits 10 n = c :: cs ∧ c ≠ '0' := by
  induction n using Nat.base_induction 10 (by decide) with
  | single m hm =>
    refine ⟨m.digitChar, [], Nat.toDigits_of_lt_base hm, ?_⟩
    interval_cases m <;> decide
  | digit m k hk hm ih =>
    obtain ⟨c, cs, hdigits, hc⟩ := ih hm
    refine ⟨c, cs ++ Nat.toDigits 10 k, ?_, hc⟩
    rw [← Nat.toDigits_append_toDigits (by decide) hm hk, hdigits, List.cons_append]

theorem natOfDigits_toDigits (n : Nat) : Decimal.natOfDigits 10 (Nat.toDigits 10 n) = n := by
  have hfold : ∀ (cs : List Char) (init : Nat), (∀ c ∈ cs, c.isDigit = true) →
      cs.foldl (fun n c => n * 10 + Decimal.digitValue c) init = Nat.ofDigitChars 10 cs init := by
    intro cs
    induction cs with
    | nil => intro init _; rfl
    | cons c cs ih =>
      intro init hcs
      obtain ⟨hc, hcs⟩ := List.forall_mem_cons.mp hcs
      rw [List.foldl_cons, ih _ hcs, Nat.ofDigitChars_cons, Decimal.digitValue, if_pos hc,
        Nat.mul_comm]
  rw [Decimal.natOfDigits, hfold _ 0 (isDigit_toDigits n)]
  exact Nat.ofDigitChars_ten_toDigits

/-- Digits without a leading zero are read to their end. -/
theorem scanUnsigned?_toDigits (n : Nat) (hrest : Breaks rest) :
    scanUnsigned? (Nat.toDigits 10 n ++ rest) = some (Nat.toDigits 10 n).length := by
  have hdigits := isDigit_toDigits n
  rcases Nat.eq_zero_or_pos n with rfl | hpos
  · rw [Nat.toDigits_zero]
    cases rest with
    | nil => rfl
    | cons x rest =>
      have hx := hrest x rfl
      simp only [continues, Bool.or_eq_false_iff] at hx
      simp [scanUnsigned?, hx, runLength]
  · obtain ⟨c, cs, hcs, hc⟩ := head_toDigits hpos
    rw [hcs] at hdigits ⊢
    obtain ⟨hdigit, hdigits⟩ := List.forall_mem_cons.mp hdigits
    rw [List.cons_append, scanUnsigned?, if_pos hdigit,
      runLength_append hdigits (hrest.takeWhile_eq_nil isDigit_of_continues),
      List.length_cons, Nat.add_comm]
    exact fun x xs h => absurd h hc

theorem scanUnsignedFraction?_toDigits (n : Nat) (hrest : Breaks rest) :
    scanUnsignedFraction? (Nat.toDigits 10 n ++ rest) = none := by
  have hdigits := isDigit_toDigits n
  have hne : (Nat.toDigits 10 n).length ≠ 0 := (Nat.length_toDigits_pos).ne'
  unfold scanUnsignedFraction?
  simp only [runLength_append hdigits (hrest.takeWhile_eq_nil isDigit_of_continues),
    List.drop_left]
  split
  · exact absurd (hrest '.' rfl) (by decide)
  · rw [if_neg hne]
    cases rest with
    | nil => rfl
    | cons e rest =>
      have he := hrest e rfl
      simp only [continues, Bool.or_eq_false_iff] at he
      simp [scanExponent?, he]

/-- The sign of an integer as it is written. -/
def signOf (i : Int) : List Char := if i < 0 then ['-'] else []

theorem toList_repr (i : Int) : i.repr.toList = signOf i ++ Nat.toDigits 10 i.natAbs := by
  cases i with
  | ofNat n => exact Nat.toList_repr
  | negSucc n =>
    have : Int.negSucc n < 0 := Int.negSucc_lt_zero n
    rw [Int.repr, String.toList_append, Nat.toList_repr, signOf, if_pos this]
    rfl

/-- A sign is told from the digits after it. -/
theorem signLength_repr (i : Int) (rest : List Char) :
    signLength (signOf i ++ (Nat.toDigits 10 i.natAbs ++ rest)) = (signOf i).length := by
  obtain ⟨c, cs, hcs, -, hsign⟩ := toDigits_eq_cons i.natAbs
  unfold signOf
  split
  · rfl
  · simp [signLength, hcs, hsign]

theorem scanInteger?_repr (i : Int) (hrest : Breaks rest) :
    scanInteger? (i.repr.toList ++ rest) = some i.repr.toList.length := by
  rw [toList_repr, List.append_assoc, scanInteger?, signLength_repr, List.drop_left,
    scanUnsigned?_toDigits _ hrest, List.length_append]
  rfl

theorem scanFraction?_repr (i : Int) (hrest : Breaks rest) :
    scanFraction? (i.repr.toList ++ rest) = none := by
  rw [toList_repr, List.append_assoc, scanFraction?, signLength_repr, List.drop_left,
    scanUnsignedFraction?_toDigits _ hrest]
  rfl

theorem unsignedValue_toDigits (n : Nat) : unsignedValue (Nat.toDigits 10 n) = n := by
  rcases Nat.eq_zero_or_pos n with rfl | hpos
  · rfl
  · obtain ⟨c, cs, hcs, hc⟩ := head_toDigits hpos
    have hvalue := natOfDigits_toDigits n
    rw [hcs] at hvalue ⊢
    rw [unsignedValue]
    · exact hvalue
    · exact fun x xs h => absurd (List.cons.inj h).1 hc

theorem integerValue_repr (i : Int) : integerValue i.repr.toList = i := by
  have hlength := signLength_repr i []
  rw [List.append_nil] at hlength
  rw [toList_repr, integerValue, hlength, List.drop_left, unsignedValue_toDigits]
  obtain ⟨c, cs, hcs, hminus, -⟩ := toDigits_eq_cons i.natAbs
  unfold signOf
  split
  · rw [List.cons_append, List.head?_cons, if_pos rfl]
    omega
  · rw [List.nil_append, hcs, List.head?_cons, if_neg (by simpa using hminus)]
    omega

end Lexeme

/-! ### Texts in quotes -/

namespace Lexeme

/-- What stands for a character in quotes. -/
def written (c : Char) : List Char := (jsonEscape c).toList

/-- A control character without a letter of its own is written as two hexadecimal digits. -/
theorem fourDigits_control : ∀ n < 0x20,
    (if n < 16 then ['0'] else []) ++ Nat.toDigits 16 n =
        [(n / 16).digitChar, (n % 16).digitChar] ∧
      fourDigits ['0', '0', (n / 16).digitChar, (n % 16).digitChar] = .ok n ∧
      (n / 16).digitChar ∉ ['"', '\\'] ∧ (n % 16).digitChar ∉ ['"', '\\'] := by
  decide

/-- What is written for a character is a backslash with a letter, a code point of a control
character, or the character. -/
theorem written_cases (c : Char) :
    (∃ e, written c = ['\\', e] ∧ e ≠ 'u' ∧ e ≠ '\n' ∧ controlOf? e = some c) ∨
    (∃ x y, written c = ['\\', 'u', '0', '0', x, y] ∧ x ∉ ['"', '\\'] ∧ y ∉ ['"', '\\'] ∧
      fourDigits ['0', '0', x, y] = .ok c.toNat ∧ c.toNat < 0x20) ∨
    (written c = [c] ∧ c ∉ ['"', '\\']) := by
  by_cases hquote : c = '"'
  · subst hquote; exact .inl ⟨'"', rfl, by decide⟩
  by_cases hbackslash : c = '\\'
  · subst hbackslash; exact .inl ⟨'\\', rfl, by decide⟩
  by_cases hb : c = '\x08'
  · subst hb; exact .inl ⟨'b', rfl, by decide⟩
  by_cases hf : c = '\x0c'
  · subst hf; exact .inl ⟨'f', rfl, by decide⟩
  by_cases hn : c = '\n'
  · subst hn; exact .inl ⟨'n', rfl, by decide⟩
  by_cases hr : c = '\r'
  · subst hr; exact .inl ⟨'r', rfl, by decide⟩
  by_cases ht : c = '\t'
  · subst ht; exact .inl ⟨'t', rfl, by decide⟩
  by_cases hcontrol : c.toNat < 0x20
  · obtain ⟨hdigits, hfour, hx, hy⟩ := fourDigits_control c.toNat hcontrol
    refine .inr (.inl ⟨_, _, ?_, hx, hy, hfour, hcontrol⟩)
    simp [written, jsonEscape, twoHexDigits, hquote, hbackslash, hb, hf, hn, hr, ht, hcontrol, hdigits]
  · refine .inr (.inr ⟨?_, by simp [hquote, hbackslash]⟩)
    simp [written, jsonEscape, hquote, hbackslash, hb, hf, hn, hr, ht, hcontrol]

/-- What is written for a character does not end the text. -/
theorem scanBody?_written (c : Char) (rest : List Char) :
    scanBody? (written c ++ rest) = (scanBody? rest).map (· + (written c).length) := by
  obtain ⟨e, hc, -, hline, -⟩ | ⟨x, y, hc, hx, hy, -⟩ | ⟨hc, hplain⟩ := written_cases c
  · rw [hc, List.cons_append, List.cons_append, scanBody?, if_neg hline]
    rfl
  · simp only [List.mem_cons, List.not_mem_nil, or_false, not_or] at hx hy
    rw [hc]
    simp [scanBody?, hx, hy]
  · simp only [List.mem_cons, List.not_mem_nil, or_false, not_or] at hplain
    rw [hc]
    simp [scanBody?, hplain]

theorem characterOf_toNat (c : Char) : characterOf c.toNat = .ok c := by
  have hvalid : c.toNat.isValidChar := c.valid
  rw [characterOf, dif_pos hvalid]
  rfl

/-- What is written for a character means it. -/
theorem unescape_written (c : Char) (rest : List Char) :
    unescape (written c ++ rest) = prepend (.ok c) (unescape rest) := by
  obtain ⟨e, hc, hu, -, hcontrol⟩ | ⟨x, y, hc, -, -, hfour, hsmall⟩ | ⟨hc, hplain⟩ := written_cases c
  · have hletter : unescape ('\\' :: e :: rest) = prepend (.ok c) (unescape rest) := by
      rw [unescape, hcontrol] <;> first | rfl | simp [hu]
    rw [hc, List.cons_append, List.cons_append, List.nil_append, hletter]
  · have hsurrogate : isHighSurrogate c.toNat = false := by
      simp only [isHighSurrogate, Bool.and_eq_false_iff, decide_eq_false_iff_not]
      omega
    rw [hc]
    simp only [List.cons_append, List.nil_append, unescape, hfour, hsurrogate, characterOf_toNat]
    rfl
  · simp only [List.mem_cons, List.not_mem_nil, or_false, not_or] at hplain
    rw [hc, List.singleton_append, unescape]
    all_goals intros; simp_all

theorem scanBody?_body (cs rest : List Char) :
    scanBody? (cs.flatMap written ++ '"' :: rest) = some ((cs.flatMap written).length + 1) := by
  induction cs with
  | nil => rfl
  | cons c cs ih =>
    rw [List.flatMap_cons, List.append_assoc, scanBody?_written, ih, List.length_append]
    simp only [Option.map_some, Option.some.injEq]
    omega

theorem unescape_body (cs : List Char) : unescape (cs.flatMap written) = .ok cs := by
  induction cs with
  | nil => rfl
  | cons c cs ih =>
    rw [List.flatMap_cons, unescape_written, ih]
    rfl

theorem toList_jsonQuoted (s : String) :
    (jsonQuoted s).toList = '"' :: (s.toList.flatMap written ++ ['"']) := by
  rw [jsonQuoted, String.toList_append, String.toList_append, String.toList_join, List.flatMap_map]
  rfl

theorem scanQuoted?_jsonQuoted (s : String) (rest : List Char) :
    scanQuoted? ((jsonQuoted s).toList ++ rest) = some (jsonQuoted s).toList.length := by
  rw [toList_jsonQuoted, List.cons_append, List.append_assoc, scanQuoted?, List.singleton_append,
    scanBody?_body]
  simp

theorem unescape_jsonQuoted (s : String) : unescape (body (jsonQuoted s).toList) = .ok s.toList := by
  rw [toList_jsonQuoted, body, List.drop_one, List.tail_cons, List.dropLast_concat, unescape_body]

end Lexeme

/-! ### Tokens -/

section Tokens

variable {t : Terminal} {r next : Reader} {rest : List Char}

theorem token?_of_read {token : String} {v : Value} {start : Position}
    (h : t.read r = Terminal.leaf token v start next) : token? t r = some (v, next) := by
  rw [token?, Terminal.find, h]
  rfl

theorem lex?_written {scan : List Char → Option Nat} {literal : List Char}
    (h : r.token.rest = literal ++ rest) (hscan : scan (literal ++ rest) = some literal.length) :
    r.lex? scan = some (r.token.cursor, literal, r.token.skip literal.length) :=
  Terminal.lex?_eq_some.mpr ⟨literal.length, by rw [h, hscan], rfl, by rw [h, List.take_left], rfl⟩

theorem token?_rune_written {c : Char} (name : String) (h : r.token.rest = c :: rest) :
    token? (.rune c name) r = some (.char c, r.token.skip 1) := by
  have hpeek : r.token.peek? = some c := by rw [Reader.peek?, h]; rfl
  have hread : (Terminal.rune c name).read r =
      Terminal.leaf name (.char c) r.token.cursor (r.token.skip 1) := by
    simp only [Terminal.read, Reader.readRune?, hpeek, if_true, Terminal.leafOf]
  exact token?_of_read hread

/-- An integer has no fraction, and reads back. -/
theorem token?_integer_written {n : Int64} (h : r.token.rest = n.toInt.repr.toList ++ rest)
    (hrest : Breaks rest) : token? .fraction r = none ∧
      token? .integer r = some (.int n, r.token.skip n.toInt.repr.toList.length) := by
  constructor
  · have hlex : r.lex? Lexeme.scanFraction? = none := by
      rw [Reader.lex?, h, Lexeme.scanFraction?_repr _ hrest]
      rfl
    simp only [token?, Terminal.find, Terminal.read, Terminal.readFraction, hlex]
    rfl
  · have hpeek : (r.token.skip n.toInt.repr.toList.length).peek? ≠ some '.' := by
      rw [Reader.peek?, Reader.rest_skip, h, List.drop_left]
      exact fun hdot => absurd (hrest '.' hdot) (by decide)
    have hword : Lexeme.toWord? n.toInt = some n := by
      have hrange : -Int.pow 2 63 ≤ n.toInt ∧ n.toInt < Int.pow 2 63 :=
        ⟨Int64.le_toInt n, Int64.toInt_lt n⟩
      rw [Lexeme.toWord?, if_pos hrange, Int64.ofInt_toInt]
    have hread : Terminal.integer.read r = Terminal.leaf "INT" (.int n) r.token.cursor
        (r.token.skip n.toInt.repr.toList.length) := by
      simp only [Terminal.read, Terminal.readInteger,
        lex?_written h (Lexeme.scanInteger?_repr _ hrest), if_neg hpeek,
        Lexeme.integerValue_repr, hword]
    exact token?_of_read hread

/-- A truth value as it is written. -/
def wordOf (b : Bool) : String := if b then "true" else "false"

theorem token?_truth_written {b : Bool} (h : r.token.rest = (wordOf b).toList ++ rest)
    (hrest : Breaks rest) :
    token? .truth r = some (.bool b, r.token.skip (wordOf b).toList.length) := by
  have hany := hrest.any_head? isWord_of_continues
  have hscan : Lexeme.scanTruth? ((wordOf b).toList ++ rest) = some (wordOf b).toList.length := by
    cases b <;> simp [wordOf, Lexeme.scanTruth?, hany]
  have hread : Terminal.truth.read r = Terminal.leaf "BOOL" (.bool b) r.token.cursor
      (r.token.skip (wordOf b).toList.length) := by
    simp only [Terminal.read, Terminal.readTruth, lex?_written h hscan]
    cases b <;> rfl
  exact token?_of_read hread

theorem token?_null_written (h : r.token.rest = "null".toList ++ rest) (hrest : Breaks rest) :
    token? (.nil "null") r = some (.nil, r.token.skip "null".toList.length) := by
  have hany := hrest.any_head? isIdentifier_of_continues
  have hword : r.readWord? "null" = some (r.token.cursor, r.token.skip "null".toList.length) := by
    simp [Reader.readWord?, h, Reader.wordEnds, hany]
  have hread : (Terminal.nil "null").read r = Terminal.leaf "NIL" .nil r.token.cursor
      (r.token.skip "null".toList.length) := by
    simp only [Terminal.read, hword, Terminal.leafOf]
  exact token?_of_read hread

/-- A text in quotes reads back whatever follows. -/
theorem token?_quoted_written {s : String} (h : r.token.rest = (jsonQuoted s).toList ++ rest) :
    token? .quoted r = some (.text s, r.token.skip (jsonQuoted s).toList.length) := by
  have hread : Terminal.quoted.read r = Terminal.leaf "STRING" (.text s) r.token.cursor
      (r.token.skip (jsonQuoted s).toList.length) := by
    simp only [Terminal.read, Terminal.readQuoted,
      lex?_written h (Lexeme.scanQuoted?_jsonQuoted s rest), Lexeme.unescape_jsonQuoted,
      String.ofList_toList]
  exact token?_of_read hread

end Tokens

end Curtail
