/-
# Escapes as JSON has them

The body of a text in quotes is a row of units, each standing for one
character: a character other than a backslash, a backslash and a letter, `\u`
and four hexadecimal digits, or two of those for the halves of a surrogate
pair. The decoder undoes exactly the rows of such units, and of one kind of
unit more: it reads the four characters after `\u` as a number, and a number
may have a plus sign in front.

Key definitions: `Lexeme.JsonUnit`, `Lexeme.SignedUnit`, `Lexeme.Decodes`.
Key theorems: `Lexeme.fourDigits_eq_ok_iff`, `Lexeme.unescape_unit`,
`Lexeme.decodes_of_unescape`, `Lexeme.unescape_decodes`.
-/
import Curtail.Proofs.Json.Lexing

namespace Curtail
namespace Lexeme

/-! ### Units -/

/-- The hexadecimal digits, each at the place of its value. -/
def lowerDigits : List Char :=
  ['0', '1', '2', '3', '4', '5', '6', '7', '8', '9', 'a', 'b', 'c', 'd', 'e', 'f']

def upperDigits : List Char :=
  ['0', '1', '2', '3', '4', '5', '6', '7', '8', '9', 'A', 'B', 'C', 'D', 'E', 'F']

/-- A hexadecimal digit, of either case, and its value. -/
def HexDigit (c : Char) (n : Nat) : Prop := lowerDigits[n]? = some c ∨ upperDigits[n]? = some c

instance (c : Char) (n : Nat) : Decidable (HexDigit c n) := inferInstanceAs (Decidable (_ ∨ _))

/-- Four hexadecimal digits and the number they stand for. -/
def FourHex (a b c d : Char) (n : Nat) : Prop :=
  ∃ w x y z, HexDigit a w ∧ HexDigit b x ∧ HexDigit c y ∧ HexDigit d z ∧
    n = 0x1000 * w + 0x100 * x + 0x10 * y + z

/-- The letters that may follow a backslash, with the characters they stand for. -/
def letters : List (Char × Char) :=
  [('"', '"'), ('\\', '\\'), ('/', '/'), ('b', '\x08'), ('f', '\x0c'), ('n', '\n'), ('r', '\r'),
    ('t', '\t')]

/-- The parts of a quoted body that JSON has, with the character each stands for. No `Char` is a
surrogate, so `code` leaves the surrogates to `pair`. -/
inductive JsonUnit : List Char → Char → Prop
  | plain {c : Char} : c ≠ '\\' → JsonUnit [c] c
  | letter {e c : Char} : (e, c) ∈ letters → JsonUnit ['\\', e] c
  | code {a b c d char : Char} : FourHex a b c d char.toNat → JsonUnit ['\\', 'u', a, b, c, d] char
  | pair {a b c d e f g h char : Char} {high low : Nat} :
      FourHex a b c d high → 0xD800 ≤ high → high < 0xDC00 →
      FourHex e f g h low → 0xDC00 ≤ low → low < 0xE000 →
      char.toNat = 0x10000 + (high - 0xD800) * 0x400 + (low - 0xDC00) →
      JsonUnit ['\\', 'u', a, b, c, d, '\\', 'u', e, f, g, h] char

/-- What is decoded beyond JSON: `\u+` and three hexadecimal digits. -/
inductive SignedUnit : List Char → Char → Prop
  | signed {b c d char : Char} : FourHex '0' b c d char.toNat →
      SignedUnit ['\\', 'u', '+', b, c, d] char

/-- The parts of a quoted body that are undone. -/
def DecodedUnit (u : List Char) (c : Char) : Prop := JsonUnit u c ∨ SignedUnit u c

/-- A body is a row of units, and a text the row of the characters they stand for. -/
inductive Decodes (Part : List Char → Char → Prop) : List Char → List Char → Prop
  | nil : Decodes Part [] []
  | cons {u rest s : List Char} {c : Char} :
      Part u c → Decodes Part rest s → Decodes Part (u ++ rest) (c :: s)

theorem Decodes.mono {Part Part' : List Char → Char → Prop} (hunits : ∀ u c, Part u c → Part' u c)
    {cs s : List Char} (h : Decodes Part cs s) : Decodes Part' cs s := by
  induction h with
  | nil => exact .nil
  | cons hunit _ ih => exact .cons (hunits _ _ hunit) ih

/-! ### Digits -/

variable {a b c d : Char} {n : Nat}

theorem HexDigit.lt (h : HexDigit c n) : n < 16 := by
  obtain h | h := h <;> exact (List.getElem?_eq_some_iff.mp h).choose

theorem toNat_lt_of_isHexDigit (h : isHexDigit c = true) : c.toNat < 128 := by
  simp only [isHexDigit, Char.isDigit, Bool.or_eq_true, Bool.and_eq_true, decide_eq_true_eq,
    UInt32.le_iff_toNat_le] at h
  change ((48 ≤ c.toNat ∧ c.toNat ≤ 57) ∨ 97 ≤ c.toNat ∧ c.toNat ≤ 102) ∨
    65 ≤ c.toNat ∧ c.toNat ≤ 70 at h
  omega

/-- Both directions are settled by looking at the values and at the code points one by one. -/
theorem hexDigit_iff : HexDigit c n ↔ isHexDigit c = true ∧ Decimal.digitValue c = n := by
  constructor
  · intro h
    have hn := h.lt
    interval_cases n <;> (obtain h | h := h <;> obtain rfl := Option.some.inj h <;> decide)
  · rintro ⟨hdigit, rfl⟩
    have hpoints : ∀ k < 128, isHexDigit (Char.ofNat k) = true →
        HexDigit (Char.ofNat k) (Decimal.digitValue (Char.ofNat k)) := by
      decide +kernel
    have := hpoints c.toNat (toNat_lt_of_isHexDigit hdigit)
    rw [Char.ofNat_toNat] at this
    exact this hdigit

theorem HexDigit.of_isHexDigit (h : isHexDigit c = true) : HexDigit c (Decimal.digitValue c) :=
  hexDigit_iff.mpr ⟨h, rfl⟩

theorem utf8Size_of_isHexDigit (h : isHexDigit c = true) : c.utf8Size = 1 := by
  have := toNat_lt_of_isHexDigit h
  rw [Char.utf8Size_eq_one_iff, UInt32.le_iff_toNat_le]
  change c.toNat ≤ 127
  omega

theorem natOfDigits_four (a b c d : Char) :
    Decimal.natOfDigits 16 [a, b, c, d] = 0x1000 * Decimal.digitValue a +
      0x100 * Decimal.digitValue b + 0x10 * Decimal.digitValue c + Decimal.digitValue d := by
  simp only [Decimal.natOfDigits, List.foldl_cons, List.foldl_nil]
  omega

/-- Four digits are hexadecimal together with their number. -/
theorem fourHex_iff : FourHex a b c d n ↔
    [a, b, c, d].all isHexDigit = true ∧ Decimal.natOfDigits 16 [a, b, c, d] = n := by
  rw [natOfDigits_four]
  simp only [List.all_cons, List.all_nil, Bool.and_true, Bool.and_eq_true]
  constructor
  · rintro ⟨w, x, y, z, ha, hb, hc, hd, rfl⟩
    obtain ⟨hadigit, rfl⟩ := hexDigit_iff.mp ha
    obtain ⟨hbdigit, rfl⟩ := hexDigit_iff.mp hb
    obtain ⟨hcdigit, rfl⟩ := hexDigit_iff.mp hc
    obtain ⟨hddigit, rfl⟩ := hexDigit_iff.mp hd
    exact ⟨⟨hadigit, hbdigit, hcdigit, hddigit⟩, rfl⟩
  · rintro ⟨⟨ha, hb, hc, hd⟩, rfl⟩
    exact ⟨_, _, _, _, .of_isHexDigit ha, .of_isHexDigit hb, .of_isHexDigit hc,
      .of_isHexDigit hd, rfl⟩

theorem byteLength_of_isHexDigit {cs : List Char} (h : cs.all isHexDigit = true) :
    Text.byteLength cs = cs.length := by
  induction cs with
  | nil => rfl
  | cons c cs ih =>
    rw [List.all_cons, Bool.and_eq_true] at h
    rw [Text.byteLength, utf8Size_of_isHexDigit h.1, ih h.2, List.length_cons, Nat.add_comm]

theorem fourDigits_eq_ok {cs : List Char} : fourDigits cs = .ok n ↔
    Text.byteLength cs = 4 ∧ (if cs.head? = some '+' then cs.drop 1 else cs).all isHexDigit = true ∧
      Decimal.natOfDigits 16 (if cs.head? = some '+' then cs.drop 1 else cs) = n := by
  simp only [fourDigits]
  generalize (if cs.head? = some '+' then cs.drop 1 else cs) = digits
  by_cases hbytes : Text.byteLength cs = 4
  · cases hdigits : digits.all isHexDigit <;> simp [hbytes]
  · simp [hbytes]

/-- Four characters are read as a number if they are hexadecimal digits, or three of them after a
plus sign. -/
theorem fourDigits_eq_ok_iff : fourDigits [a, b, c, d] = .ok n ↔
    FourHex a b c d n ∨ a = '+' ∧ FourHex '0' b c d n := by
  rw [fourDigits_eq_ok, fourHex_iff, fourHex_iff]
  by_cases ha : a = '+'
  · subst ha
    have hplus : [('+' : Char), b, c, d].all isHexDigit = false := rfl
    have hzero : ['0', b, c, d].all isHexDigit = [b, c, d].all isHexDigit := rfl
    have hvalue : Decimal.natOfDigits 16 ['0', b, c, d] = Decimal.natOfDigits 16 [b, c, d] := rfl
    have hbytes : [b, c, d].all isHexDigit = true → Text.byteLength ['+', b, c, d] = 4 :=
      fun h => congrArg (1 + ·) (byteLength_of_isHexDigit h)
    simp only [List.head?_cons, if_true, List.drop_succ_cons, List.drop_zero, true_and, hplus,
      Bool.false_eq_true, false_and, false_or, hzero, hvalue]
    exact ⟨And.right, fun h => ⟨hbytes h.1, h⟩⟩
  · have hhead : ¬ ([a, b, c, d].head? = some '+') := fun h => ha (Option.some.inj h)
    simp only [if_neg hhead, ha, false_and, or_false]
    exact ⟨And.right, fun h => ⟨byteLength_of_isHexDigit h.1, h⟩⟩

/-! ### Decoding -/

theorem controlOf?_eq_some_iff {e : Char} : controlOf? e = some c ↔ (e, c) ∈ letters := by
  unfold controlOf?
  split <;> simp_all [letters, eq_comm]

theorem characterOf_eq_ok_iff : characterOf n = .ok c ↔ c.toNat = n := by
  constructor
  · intro h
    by_cases hvalid : n.isValidChar
    · rw [characterOf, dif_pos hvalid] at h
      obtain rfl := Except.ok.inj h
      rfl
    · rw [characterOf, dif_neg hvalid] at h
      cases h
  · rintro rfl
    exact characterOf_toNat c

theorem prepend_eq_ok_iff {first : Except EscapeFlaw Char} {rest : Except EscapeFlaw (List Char)}
    {s : List Char} :
    prepend first rest = .ok s ↔ ∃ c cs, first = .ok c ∧ rest = .ok cs ∧ s = c :: cs := by
  cases first with
  | error flaw => simp [prepend]
  | ok c => cases rest <;> simp [prepend, eq_comm]

theorem pairValue_eq_ok_iff {high : Nat} {char : Char} : pairValue high [a, b, c, d] = .ok char ↔
    ∃ low, fourDigits [a, b, c, d] = .ok low ∧ 0xDC00 ≤ low ∧ low < 0xE000 ∧
      char.toNat = joinSurrogates high low := by
  unfold pairValue
  cases fourDigits [a, b, c, d] with
  | error flaw => simp
  | ok low =>
    by_cases hlow : 0xDC00 ≤ low ∧ low < 0xE000
    · simp [isLowSurrogate, characterOf_eq_ok_iff, hlow]
    · simp only [isLowSurrogate, ← Bool.decide_and, decide_eq_true_eq, if_neg hlow, reduceCtorEq,
        Except.ok.injEq, exists_eq_left', false_iff]
      exact fun h => hlow ⟨h.1, h.2.1⟩

/-- The surrogates are apart from the characters. -/
theorem isHighSurrogate_toNat (c : Char) : isHighSurrogate c.toNat = false := by
  have hvalid : c.toNat.isValidChar := c.valid
  simp only [isHighSurrogate, ← Bool.decide_and, decide_eq_false_iff_not]
  obtain h | ⟨h, -⟩ := hvalid <;> omega

theorem unescape_code {char : Char} {rest : List Char}
    (h : fourDigits [a, b, c, d] = .ok char.toNat) :
    unescape ('\\' :: 'u' :: a :: b :: c :: d :: rest) = prepend (.ok char) (unescape rest) := by
  rw [unescape, h]
  simp only [isHighSurrogate_toNat, Bool.false_eq_true, if_false, characterOf_toNat]

theorem unescape_pair {e f g h char : Char} {high low : Nat} {rest : List Char}
    (hhigh : fourDigits [a, b, c, d] = .ok high) (hlo : 0xD800 ≤ high) (hhi : high < 0xDC00)
    (hlow : fourDigits [e, f, g, h] = .ok low) (hlo' : 0xDC00 ≤ low) (hhi' : low < 0xE000)
    (hchar : char.toNat = joinSurrogates high low) :
    unescape ('\\' :: 'u' :: a :: b :: c :: d :: '\\' :: 'u' :: e :: f :: g :: h :: rest) =
      prepend (.ok char) (unescape rest) := by
  have hsurrogate : isHighSurrogate high = true := by simp [isHighSurrogate, hlo, hhi]
  have hpair : pairValue high [e, f, g, h] = .ok char :=
    pairValue_eq_ok_iff.mpr ⟨low, hlow, hlo', hhi', hchar⟩
  rw [unescape, hhigh]
  simp only [hsurrogate, if_true, hpair]

/-- A unit at the start is undone, whatever follows. -/
theorem unescape_unit {u rest : List Char} (h : DecodedUnit u c) :
    unescape (u ++ rest) = prepend (.ok c) (unescape rest) := by
  obtain h | h := h
  · cases h with
    | plain hplain =>
      rw [List.singleton_append, unescape]
      all_goals intros; simp_all
    | @letter e c hletter =>
      have hu : e ≠ 'u' := by rintro rfl; simp [letters] at hletter
      have hcontrol := controlOf?_eq_some_iff.mpr hletter
      simp only [List.cons_append, List.nil_append]
      rw [unescape, hcontrol] <;> first | rfl | simp [hu]
    | code hfour => exact unescape_code (fourDigits_eq_ok_iff.mpr (.inl hfour))
    | pair hhigh hlo hhi hlow hlo' hhi' hchar =>
      exact unescape_pair (fourDigits_eq_ok_iff.mpr (.inl hhigh)) hlo hhi
        (fourDigits_eq_ok_iff.mpr (.inl hlow)) hlo' hhi' hchar
  · cases h with
    | signed hthree => exact unescape_code (fourDigits_eq_ok_iff.mpr (.inr ⟨rfl, hthree⟩))

theorem unescape_of_decodes {cs s : List Char} (h : Decodes DecodedUnit cs s) :
    unescape cs = .ok s := by
  induction h with
  | nil => rfl
  | cons hunit _ ih => rw [unescape_unit hunit, ih]; rfl

/-- Four characters read as the code point of a character are a unit. -/
theorem unit_of_fourDigits {char : Char} (h : fourDigits [a, b, c, d] = .ok char.toNat) :
    DecodedUnit ['\\', 'u', a, b, c, d] char := by
  obtain hfour | ⟨rfl, hthree⟩ := fourDigits_eq_ok_iff.mp h
  · exact .inl (.code hfour)
  · exact .inr (.signed hthree)

/-- Behind a plus sign there are too few digits for a surrogate. -/
theorem fourHex_of_le (h : fourDigits [a, b, c, d] = .ok n) (hn : 0x1000 ≤ n) :
    FourHex a b c d n := by
  obtain h | ⟨-, w, x, y, z, hw, hx, hy, hz, rfl⟩ := fourDigits_eq_ok_iff.mp h
  · exact h
  · obtain ⟨-, rfl⟩ := hexDigit_iff.mp hw
    have := hx.lt
    have := hy.lt
    have := hz.lt
    have : Decimal.digitValue '0' = 0 := rfl
    omega

theorem pair_of_fourDigits {e f g h char : Char} {high : Nat}
    (hhigh : fourDigits [a, b, c, d] = .ok high) (hsurrogate : isHighSurrogate high = true)
    (hpair : pairValue high [e, f, g, h] = .ok char) :
    JsonUnit ['\\', 'u', a, b, c, d, '\\', 'u', e, f, g, h] char := by
  obtain ⟨low, hlow, hlo, hhi, hchar⟩ := pairValue_eq_ok_iff.mp hpair
  simp only [isHighSurrogate, Bool.and_eq_true, decide_eq_true_eq] at hsurrogate
  exact .pair (fourHex_of_le hhigh (by omega)) hsurrogate.1 hsurrogate.2
    (fourHex_of_le hlow (by omega)) hlo hhi hchar

theorem decodes_of_prepend {Part : List Char → Char → Prop} {u rest s : List Char}
    {first : Except EscapeFlaw Char} (h : prepend first (unescape rest) = .ok s)
    (hunit : ∀ c, first = .ok c → Part u c)
    (ih : ∀ {s}, unescape rest = .ok s → Decodes Part rest s) : Decodes Part (u ++ rest) s := by
  obtain ⟨c, cs, hfirst, hrest, rfl⟩ := prepend_eq_ok_iff.mp h
  exact .cons (hunit c hfirst) (ih hrest)

/-- The decoder takes one unit after the other. -/
theorem decodes_of_unescape {cs s : List Char} (h : unescape cs = .ok s) :
    Decodes DecodedUnit cs s := by
  fun_induction unescape cs generalizing s with
  | case1 =>
    obtain rfl := Except.ok.inj h
    exact .nil
  | case4 a b c d high hhigh hsurrogate e f g h' rest ih =>
    exact decodes_of_prepend (u := ['\\', 'u', a, b, c, d, '\\', 'u', e, f, g, h']) h
      (fun char hpair => .inl (pair_of_fourDigits hhigh hsurrogate hpair)) ih
  | case7 a b c d rest n hn _ ih =>
    refine decodes_of_prepend (u := ['\\', 'u', a, b, c, d]) h (fun char hchar => ?_) ih
    exact unit_of_fourDigits (characterOf_eq_ok_iff.mp hchar ▸ hn)
  | case9 e rest _ _ c hcontrol ih =>
    refine decodes_of_prepend (u := ['\\', e]) h (fun c' hc => ?_) ih
    obtain rfl := Except.ok.inj hc
    exact .inl (.letter (controlOf?_eq_some_iff.mp hcontrol))
  | case11 c rest hend _ _ hescape ih =>
    refine decodes_of_prepend (u := [c]) h (fun c' hc => ?_) ih
    obtain rfl := Except.ok.inj hc
    refine .inl (.plain fun hbackslash => ?_)
    cases rest with
    | nil => exact hend hbackslash rfl
    | cons e rest => exact hescape e rest hbackslash rfl
  -- every other shape is a flaw
  | _ => cases h

/-- Where no plus sign follows a `\u`, nothing is undone that JSON does not have. -/
theorem Decodes.json {cs s : List Char} (h : Decodes DecodedUnit cs s)
    (hplus : ¬ ['\\', 'u', '+'] <:+: cs) : Decodes JsonUnit cs s := by
  induction h with
  | nil => exact .nil
  | @cons u rest s c hunit _ ih =>
    have hrest : ¬ ['\\', 'u', '+'] <:+: rest := fun hin =>
      hplus (hin.trans (List.suffix_append u rest).isInfix)
    obtain hunit | @⟨b, c, d, char, hfour⟩ := hunit
    · exact .cons hunit (ih hrest)
    · exact absurd ⟨[], b :: c :: d :: rest, rfl⟩ hplus

/-- In JSON, a digit follows a `\u`. -/
theorem Decodes.hexDigit {rest s : List Char} (h : Decodes JsonUnit ('\\' :: 'u' :: a :: rest) s) :
    ∃ n, HexDigit a n := by
  generalize hcs : '\\' :: 'u' :: a :: rest = cs at h
  cases h with
  | nil => cases hcs
  | cons hunit _ =>
    cases hunit with
    | plain hplain => exact absurd (List.cons.inj hcs).1.symm hplain
    | letter hletter =>
      obtain rfl := (List.cons.inj (List.cons.inj hcs).2).1
      simp [letters] at hletter
    | code hfour =>
      obtain ⟨w, _, _, _, hw, -⟩ := hfour
      obtain rfl := (List.cons.inj (List.cons.inj (List.cons.inj hcs).2).2).1
      exact ⟨w, hw⟩
    | pair hhigh =>
      obtain ⟨w, _, _, _, hw, -⟩ := hhigh
      obtain rfl := (List.cons.inj (List.cons.inj (List.cons.inj hcs).2).2).1
      exact ⟨w, hw⟩

/-- **The bodies that the decoder undoes**: the rows of units as JSON has them, and beyond them only
the rows in which a plus sign stands for the first of the four digits. Any other body is flawed. -/
theorem unescape_decodes (cs s : List Char) :
    (Decodes JsonUnit cs s → unescape cs = .ok s) ∧
    (¬ ['\\', 'u', '+'] <:+: cs → (unescape cs = .ok s ↔ Decodes JsonUnit cs s)) ∧
    (unescape cs = .ok s ↔ Decodes DecodedUnit cs s) ∧
    ((∃ flaw, unescape cs = .error flaw) ↔ ∀ s', ¬ Decodes DecodedUnit cs s') := by
  have hjson : Decodes JsonUnit cs s → unescape cs = .ok s := fun h =>
    unescape_of_decodes (h.mono fun _ _ => .inl)
  refine ⟨hjson, fun hplus => ⟨fun h => (decodes_of_unescape h).json hplus, hjson⟩,
    ⟨decodes_of_unescape, unescape_of_decodes⟩, ?_⟩
  cases hcs : unescape cs with
  | error flaw =>
    refine iff_of_true ⟨flaw, rfl⟩ fun s' h => ?_
    rw [unescape_of_decodes h] at hcs
    cases hcs
  | ok s' => exact iff_of_false nofun fun h => h s' (decodes_of_unescape hcs)

/-- The two halves of a surrogate pair are one character. -/
theorem unescape_decodes_pair :
    ¬ ['\\', 'u', '+'] <:+: ['\\', 'u', 'd', '8', '3', 'D', '\\', 'u', 'D', 'e', '0', '0'] ∧
    Decodes JsonUnit ['\\', 'u', 'd', '8', '3', 'D', '\\', 'u', 'D', 'e', '0', '0'] ['😀'] := by
  have hplus : ¬ ['\\', 'u', '+'] <:+:
      ['\\', 'u', 'd', '8', '3', 'D', '\\', 'u', 'D', 'e', '0', '0'] := by decide
  exact ⟨hplus, ((unescape_decodes _ _).2.1 hplus).mp (by decide)⟩

/-- The counterexample to escapes being those of JSON: `\u+041` is taken for a letter. -/
theorem unescape_signed : unescape ['\\', 'u', '+', '0', '4', '1'] = .ok ['A'] ∧
    ¬ ∃ s, Decodes JsonUnit ['\\', 'u', '+', '0', '4', '1'] s := by
  refine ⟨by decide, ?_⟩
  rintro ⟨s, h⟩
  obtain ⟨n, hn⟩ := h.hexDigit
  cases (hexDigit_iff.mp hn).1

end Lexeme
end Curtail
