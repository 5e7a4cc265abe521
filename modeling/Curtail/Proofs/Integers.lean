/-
# Integer literals stand for their numbers

An integer literal is a sign, if there is one, and a magnitude in one of three
forms: decimal without leading zero, hexadecimal after `0x` or `0X`, octal after
a zero. At a text the first form counts that a word of stands there, and the
longest of its words. Said that way nothing scans and nothing adds up digits
from the left; the scanner finds just these literals, and the number of each is
what its digits stand for, however many there are.

A number written in any of the forms, of either sign, is read back to itself
unless what follows could continue it.

Key definitions: `Lexeme.Digits`, `Lexeme.Form.Spells`, `Lexeme.Form.Longest`,
`Lexeme.Magnitude`, `Lexeme.IntegerAt`, `Lexeme.Rendering`.
Key theorems: `Lexeme.digits_iff`, `Lexeme.Form.longest_iff`,
`Lexeme.integerAt_iff`, `Lexeme.Rendering.integerAt`, `Terminal.integer_exact`.
-/
import Curtail.Proofs.Escapes
import Mathlib.Data.List.Induction
import Mathlib.Data.List.TakeWhile

namespace Curtail
namespace Lexeme

/-! ### Literals -/

/-- Digits in a base, and the number that they stand for. -/
inductive Digits (base : Nat) : List Char → Nat → Prop
  | nil : Digits base [] 0
  | snoc {digits : List Char} {c : Char} {n d : Nat} : Digits base digits n → HexDigit c d →
      d < base → Digits base (digits ++ [c]) (n * base + d)

/-- How the magnitude of an integer may be written. -/
inductive Form where
  | decimal
  | hexadecimal
  | octal

namespace Form

/-- The words of a form, with the numbers that they stand for. -/
inductive Spells : Form → List Char → Nat → Prop
  | decimal {c : Char} {digits : List Char} {n : Nat} : c ≠ '0' → Digits 10 (c :: digits) n →
      Spells .decimal (c :: digits) n
  | hexadecimal {x : Char} {digits : List Char} {n : Nat} : x = 'x' ∨ x = 'X' → digits ≠ [] →
      Digits 16 digits n → Spells .hexadecimal ('0' :: x :: digits) n
  | octal {digits : List Char} {n : Nat} : Digits 8 digits n → Spells .octal ('0' :: digits) n

/-- A word of the form stands at the start of the text. -/
def Starts (form : Form) (cs : List Char) : Prop := ∃ word n, form.Spells word n ∧ word <+: cs

/-- The longest word of the form at the start of the text, and its number. -/
structure Longest (form : Form) (cs word : List Char) (n : Nat) : Prop where
  spells : form.Spells word n
  leads : word <+: cs
  longest : ∀ word' n', form.Spells word' n' → word' <+: cs → word'.length ≤ word.length

end Form

/-- The magnitude at the start of the text, and its number: of the first form that a word of stands
there, the longest word. -/
inductive Magnitude (cs word : List Char) (n : Nat) : Prop
  | decimal : Form.decimal.Longest cs word n → Magnitude cs word n
  | hexadecimal : ¬ Form.decimal.Starts cs → Form.hexadecimal.Longest cs word n →
      Magnitude cs word n
  | octal : ¬ Form.decimal.Starts cs → ¬ Form.hexadecimal.Starts cs →
      Form.octal.Longest cs word n → Magnitude cs word n

/-- A sign or none, a magnitude, and the integer that they make. -/
inductive Signed : List Char → Nat → Int → Prop
  | plain {n : Nat} : Signed [] n n
  | plus {n : Nat} : Signed ['+'] n n
  | minus {n : Nat} : Signed ['-'] n (-n)

/-- The integer literal at the start of the text, and the integer that it stands for. -/
inductive IntegerAt : List Char → List Char → Int → Prop
  | mk {sign cs word : List Char} {n : Nat} {i : Int} : Signed sign n i → Magnitude cs word n →
      IntegerAt (sign ++ cs) (sign ++ word) i

/-- The ways to write an integer: any sign it can have, and its magnitude in one of the forms. -/
inductive Rendering : Int → List Char → Prop
  | decimal {sign : List Char} {n : Nat} {i : Int} : Signed sign n i →
      Rendering i (sign ++ Nat.toDigits 10 n)
  | hexadecimal {sign : List Char} {n : Nat} {i : Int} {x : Char} : Signed sign n i →
      x = 'x' ∨ x = 'X' → Rendering i (sign ++ '0' :: x :: Nat.toDigits 16 n)
  | upperHexadecimal {sign : List Char} {n : Nat} {i : Int} {x : Char} : Signed sign n i →
      x = 'x' ∨ x = 'X' → Rendering i (sign ++ '0' :: x :: (Nat.toDigits 16 n).map Char.toUpper)
  | octal {sign : List Char} {n : Nat} {i : Int} : Signed sign n i →
      Rendering i (sign ++ '0' :: Nat.toDigits 8 n)

/-! ### Digits -/

variable {cs word digits : List Char} {c : Char} {n k : Nat} {form : Form}

namespace Form

def base : Form → Nat
  | decimal => 10
  | hexadecimal => 16
  | octal => 8

/-- The digits of a form as the scanner knows them. -/
def isDigit : Form → Char → Bool
  | decimal => Char.isDigit
  | hexadecimal => isHexDigit
  | octal => isOctalDigit

/-- The three classes are hexadecimal digits below the base, which is settled one by one. -/
theorem isDigit_iff :
    form.isDigit c = true ↔ isHexDigit c = true ∧ Decimal.digitValue c < form.base := by
  cases hc : isHexDigit c with
  | true =>
    have hpoints : ∀ form : Form, ∀ k < 128, isHexDigit (Char.ofNat k) = true →
        (form.isDigit (Char.ofNat k) = true ↔
          Decimal.digitValue (Char.ofNat k) < form.base) := by
      intro form
      cases form <;> decide +kernel
    have := hpoints form c.toNat (toNat_lt_of_isHexDigit hc)
    rw [Char.ofNat_toNat] at this
    simpa using this hc
  | false =>
    have hdecimal : c.isDigit = false := by
      simp only [isHexDigit, Bool.or_eq_false_iff] at hc
      exact hc.1.1
    have hoctal : isOctalDigit c = false := by
      simp only [Char.isDigit, Bool.and_eq_false_iff, decide_eq_false_iff_not, UInt32.le_iff_toNat_le]
        at hdecimal
      change ¬ 48 ≤ c.toNat ∨ ¬ c.toNat ≤ 57 at hdecimal
      simp only [isOctalDigit, Bool.and_eq_false_iff, decide_eq_false_iff_not]
      change ¬ 48 ≤ c.toNat ∨ ¬ c.toNat ≤ 55
      omega
    cases form <;> simp [isDigit, hc, hdecimal, hoctal]

end Form

theorem natOfDigits_snoc (base : Nat) (digits : List Char) (c : Char) :
    Decimal.natOfDigits base (digits ++ [c]) =
      Decimal.natOfDigits base digits * base + Decimal.digitValue c := by
  simp [Decimal.natOfDigits]

/-- Digits stand for the number that is added up from the left. -/
theorem digits_iff (form : Form) : Digits form.base digits n ↔
    (∀ c ∈ digits, form.isDigit c = true) ∧ Decimal.natOfDigits form.base digits = n := by
  constructor
  · intro h
    induction h with
    | nil => exact ⟨nofun, rfl⟩
    | @snoc digits c n d _ hc hd ih =>
      obtain ⟨hdigits, rfl⟩ := ih
      obtain ⟨hhex, rfl⟩ := hexDigit_iff.mp hc
      refine ⟨fun x hx => ?_, natOfDigits_snoc _ _ _⟩
      rcases List.mem_append.mp hx with hx | hx
      · exact hdigits x hx
      · obtain rfl := List.mem_singleton.mp hx
        exact Form.isDigit_iff.mpr ⟨hhex, hd⟩
  · rintro ⟨hdigits, rfl⟩
    induction digits using List.reverseRecOn with
    | nil => exact .nil
    | append_singleton digits c ih =>
      obtain ⟨hhex, hlt⟩ := Form.isDigit_iff.mp (hdigits c (by simp))
      rw [natOfDigits_snoc]
      exact (ih fun x hx => hdigits x (by simp [hx])).snoc (.of_isHexDigit hhex) hlt

/-- A number written in a base stands for itself. -/
theorem digits_toDigits (form : Form) (hform : 1 < form.base) (n : Nat) :
    Digits form.base (Nat.toDigits form.base n) n := by
  have hdigit : ∀ m < form.base, HexDigit m.digitChar m := by
    have hsmall : ∀ m < 16, HexDigit m.digitChar m := by decide
    have hle : form.base ≤ 16 := by cases form <;> decide
    exact fun m hm => hsmall m (by omega)
  induction n using Nat.base_induction form.base hform with
  | single m hm =>
    rw [Nat.toDigits_of_lt_base hm]
    simpa using Digits.nil.snoc (hdigit m hm) hm
  | digit m k hk hm ih =>
    rw [← Nat.toDigits_append_toDigits hform hm hk, Nat.toDigits_of_lt_base hk,
      Nat.mul_comm form.base m]
    exact ih.snoc (hdigit k hk) hk

/-- Digits of the upper case stand for the same number. -/
theorem Digits.upper {base : Nat} (h : Digits base digits n) :
    Digits base (digits.map Char.toUpper) n := by
  have hupper : ∀ {c d}, HexDigit c d → HexDigit c.toUpper d := by
    intro c d hc
    have hd := hc.lt
    interval_cases d <;> (obtain h | h := hc <;> obtain rfl := Option.some.inj h <;> decide)
  induction h with
  | nil => exact .nil
  | snoc _ hc hd ih =>
    rw [List.map_append]
    exact ih.snoc (hupper hc) hd

/-! ### Scanning -/

theorem prefix_takeWhile {p : Char → Bool} (hdigits : ∀ c ∈ digits, p c = true)
    (h : digits <+: cs) : digits <+: cs.takeWhile p := by
  obtain ⟨rest, rfl⟩ := h
  rw [List.takeWhile_append_of_pos hdigits]
  exact List.prefix_append _ _

/-- Digits are no more than the run of digits that they start. -/
theorem Digits.length_le (form : Form) (h : Digits form.base digits n) (hcs : digits <+: cs) :
    digits.length ≤ runLength form.isDigit cs :=
  (prefix_takeWhile ((digits_iff form).mp h).1 hcs).length_le

theorem Digits.runLength_append {rest : List Char} (form : Form) (h : Digits form.base digits n)
    (hrest : rest.takeWhile form.isDigit = []) :
    runLength form.isDigit (digits ++ rest) = digits.length :=
  Lexeme.runLength_append ((digits_iff form).mp h).1 hrest

theorem digits_takeWhile (form : Form) (cs : List Char) :
    Digits form.base (cs.takeWhile form.isDigit)
      (Decimal.natOfDigits form.base (cs.takeWhile form.isDigit)) :=
  (digits_iff form).mpr ⟨fun _ hc => List.mem_takeWhile_imp hc, rfl⟩

theorem take_runLength (p : Char → Bool) (cs : List Char) :
    cs.take (runLength p cs) = cs.takeWhile p :=
  (List.prefix_iff_eq_take.mp (List.takeWhile_prefix p)).symm

theorem runLength_le (p : Char → Bool) (cs : List Char) : runLength p cs ≤ cs.length :=
  (List.takeWhile_prefix p).length_le

namespace Form

/-- The length of the longest word of the form at the start. -/
def scan? : Form → List Char → Option Nat
  | decimal, c :: cs => if c ≠ '0' ∧ c.isDigit then some (1 + runLength Char.isDigit cs) else none
  | hexadecimal, '0' :: x :: cs =>
    if (x = 'x' ∨ x = 'X') ∧ 0 < runLength isHexDigit cs then some (2 + runLength isHexDigit cs)
    else none
  | octal, '0' :: cs => some (1 + runLength isOctalDigit cs)
  | _, _ => none

theorem scan?_of_ne_zero (hc : c ≠ '0') :
    hexadecimal.scan? (c :: cs) = none ∧ octal.scan? (c :: cs) = none := by
  constructor <;> (unfold scan?; split <;> simp_all)

/-- The scanner of magnitudes tries the forms in their order. -/
theorem scanUnsigned?_eq (cs : List Char) : scanUnsigned? cs =
    (decimal.scan? cs).or ((hexadecimal.scan? cs).or (octal.scan? cs)) := by
  cases cs with
  | nil => rfl
  | cons c cs =>
    by_cases hc : c = '0'
    · subst hc
      cases cs with
      | nil => rfl
      | cons x cs =>
        simp only [scanUnsigned?, scan?, Bool.and_eq_true, Bool.or_eq_true, beq_iff_eq,
          decide_eq_true_eq, ne_eq, not_true, false_and, if_false, Option.none_or]
        split <;> rfl
    · obtain ⟨hhex, hoctal⟩ : hexadecimal.scan? (c :: cs) = none ∧ octal.scan? (c :: cs) = none :=
        scan?_of_ne_zero hc
      rw [hhex, hoctal, Option.or_none, Option.or_none, scanUnsigned?]
      · simp only [scan?, hc, ne_eq, not_false_eq_true, true_and]
      · exact fun x xs h => absurd h hc

/-- No word is longer than what is scanned. -/
theorem Spells.le_scan (h : form.Spells word n) (hcs : word <+: cs) :
    ∃ k, form.scan? cs = some k ∧ word.length ≤ k := by
  obtain ⟨rest, rfl⟩ := hcs
  cases h with
  | @decimal c digits n hc h =>
    have hdigits := (digits_iff .decimal).mp h
    obtain ⟨hdigit, hdigits⟩ := List.forall_mem_cons.mp hdigits.1
    have hle := (prefix_takeWhile hdigits (List.prefix_append digits rest)).length_le
    refine ⟨_, if_pos ⟨hc, hdigit⟩, ?_⟩
    rw [List.length_cons, Nat.add_comm]
    exact Nat.add_le_add_left hle 1
  | @hexadecimal x digits n hx hne h =>
    have hle := Digits.length_le .hexadecimal h (List.prefix_append digits rest)
    have hpos := List.length_pos_of_ne_nil hne
    refine ⟨_, if_pos ⟨hx, Nat.lt_of_lt_of_le hpos hle⟩, ?_⟩
    rw [List.length_cons, List.length_cons, Nat.add_comm 2]
    exact Nat.add_le_add_right hle 2
  | @octal digits n h =>
    have hle := Digits.length_le .octal h (List.prefix_append digits rest)
    refine ⟨_, rfl, ?_⟩
    rw [List.length_cons, Nat.add_comm]
    exact Nat.add_le_add_left hle 1

/-- What is scanned is a word. -/
theorem spells_of_scan (h : form.scan? cs = some k) :
    k ≤ cs.length ∧ ∃ n, form.Spells (cs.take k) n := by
  unfold scan? at h
  split at h
  case h_1 c cs =>
    split at h
    case isTrue hc =>
      obtain rfl := Option.some.inj h
      have hle := runLength_le Char.isDigit cs
      have hdigits := digits_takeWhile .decimal (c :: cs)
      rw [isDigit, List.takeWhile_cons_of_pos hc.2] at hdigits
      rw [Nat.add_comm, List.length_cons, List.take_succ_cons, take_runLength]
      exact ⟨Nat.add_le_add_right hle 1, _, .decimal hc.1 hdigits⟩
    case isFalse => cases h
  case h_2 x cs =>
    split at h
    case isTrue hx =>
      obtain rfl := Option.some.inj h
      have hle := runLength_le isHexDigit cs
      have hdigits := digits_takeWhile .hexadecimal cs
      rw [Nat.add_comm, List.length_cons, List.length_cons, List.take_succ_cons,
        List.take_succ_cons, take_runLength]
      exact ⟨Nat.add_le_add_right hle 2, _,
        .hexadecimal hx.1 (List.ne_nil_of_length_pos hx.2) hdigits⟩
    case isFalse => cases h
  case h_3 cs =>
    obtain rfl := Option.some.inj h
    have hle := runLength_le isOctalDigit cs
    rw [Nat.add_comm, List.length_cons, List.take_succ_cons, take_runLength]
    exact ⟨Nat.add_le_add_right hle 1, _, .octal (digits_takeWhile .octal cs)⟩
  case h_4 => cases h

/-- The number of a word is the one that its digits are turned into. -/
theorem Spells.value (h : form.Spells word n) : unsignedValue word = n := by
  cases h with
  | @decimal c digits n hc h =>
    rw [unsignedValue]
    · exact ((digits_iff .decimal).mp h).2
    · exact fun x xs h => absurd (List.cons.inj h).1 hc
  | @hexadecimal x digits n hx hne h =>
    have hx' : (x == 'x' || x == 'X') = true := by simpa using hx
    rw [unsignedValue, if_pos hx']
    exact ((digits_iff .hexadecimal).mp h).2
  | @octal digits n h =>
    obtain ⟨hdigits, hvalue⟩ := (digits_iff .octal).mp h
    cases digits with
    | nil => exact hvalue
    | cons x digits =>
      have hx : (x == 'x' || x == 'X') = false := by
        have := hdigits x List.mem_cons_self
        simp only [Bool.or_eq_false_iff, beq_eq_false_iff_ne]
        constructor <;> (rintro rfl; cases this)
      rw [unsignedValue, hx]
      exact hvalue

/-- The longest word is the one that is scanned. -/
theorem longest_iff : form.Longest cs word n ↔
    ∃ k, form.scan? cs = some k ∧ word = cs.take k ∧ n = unsignedValue word := by
  constructor
  · intro h
    obtain ⟨k, hk, hle⟩ := h.spells.le_scan h.leads
    obtain ⟨hk', n', hspells⟩ := spells_of_scan hk
    have hge := h.longest _ _ hspells (List.take_prefix k cs)
    rw [List.length_take, Nat.min_eq_left hk'] at hge
    refine ⟨k, hk, ?_, h.spells.value.symm⟩
    rw [← Nat.le_antisymm hle hge]
    exact List.prefix_iff_eq_take.mp h.leads
  · rintro ⟨k, hk, rfl, rfl⟩
    obtain ⟨hk', n', hspells⟩ := spells_of_scan hk
    refine ⟨hspells.value ▸ hspells, List.take_prefix k cs, fun word' n' hword' hcs => ?_⟩
    obtain ⟨k', hk'', hle⟩ := hword'.le_scan hcs
    obtain rfl := Option.some.inj (hk.symm.trans hk'')
    rwa [List.length_take, Nat.min_eq_left hk']

theorem not_starts_iff : ¬ form.Starts cs ↔ form.scan? cs = none := by
  rw [Option.eq_none_iff_forall_ne_some]
  constructor
  · intro h k hk
    obtain ⟨-, n, hspells⟩ := spells_of_scan hk
    exact h ⟨_, n, hspells, List.take_prefix k cs⟩
  · rintro h ⟨word, n, hspells, hcs⟩
    obtain ⟨k, hk, -⟩ := hspells.le_scan hcs
    exact h k hk

end Form

/-- The magnitude at the start is the one that is scanned. -/
theorem magnitude_iff : Magnitude cs word n ↔
    ∃ k, scanUnsigned? cs = some k ∧ word = cs.take k ∧ n = unsignedValue word := by
  rw [Form.scanUnsigned?_eq]
  constructor
  · intro h
    cases h with
    | decimal h =>
      obtain ⟨k, hk, hword⟩ := Form.longest_iff.mp h
      exact ⟨k, by rw [hk, Option.some_or], hword⟩
    | hexadecimal hdecimal h =>
      obtain ⟨k, hk, hword⟩ := Form.longest_iff.mp h
      exact ⟨k, by rw [Form.not_starts_iff.mp hdecimal, hk, Option.none_or, Option.some_or], hword⟩
    | octal hdecimal hhex h =>
      obtain ⟨k, hk, hword⟩ := Form.longest_iff.mp h
      exact ⟨k, by rw [Form.not_starts_iff.mp hdecimal, Form.not_starts_iff.mp hhex, hk,
        Option.none_or, Option.none_or], hword⟩
  · rintro ⟨k, hk, hword⟩
    rcases hdecimal : Form.decimal.scan? cs with _ | k'
    · have hdecimal' := Form.not_starts_iff.mpr hdecimal
      rw [hdecimal, Option.none_or] at hk
      rcases hhex : Form.hexadecimal.scan? cs with _ | k'
      · rw [hhex, Option.none_or] at hk
        exact .octal hdecimal' (Form.not_starts_iff.mpr hhex) (Form.longest_iff.mpr ⟨k, hk, hword⟩)
      · rw [hhex, Option.some_or] at hk
        exact .hexadecimal hdecimal' (Form.longest_iff.mpr ⟨k, hhex.trans hk, hword⟩)
    · rw [hdecimal, Option.some_or] at hk
      exact .decimal (Form.longest_iff.mpr ⟨k, hdecimal.trans hk, hword⟩)

/-! ### Signs -/

variable {sign literal rest : List Char} {i : Int}

theorem Signed.signLength_append (h : Signed sign n i) (hcs : cs.head?.any isSign = false) :
    signLength (sign ++ cs) = sign.length := by
  cases h with
  | plain => simp [signLength, hcs]
  | plus => rfl
  | minus => rfl

theorem Signed.integerValue_append (h : Signed sign (unsignedValue word) i)
    (hword : word.head?.any isSign = false) : integerValue (sign ++ word) = i := by
  rw [integerValue, h.signLength_append hword, List.drop_left]
  cases h with
  | plain =>
    refine if_neg fun hminus => ?_
    rw [List.nil_append] at hminus
    rw [hminus] at hword
    cases hword
  | plus => rfl
  | minus => rfl

theorem exists_signed (cs : List Char) : ∃ sign cs', cs = sign ++ cs' ∧
    signLength cs = sign.length ∧ ∀ n, ∃ i, Signed sign n i := by
  by_cases hplus : ∃ cs', cs = '+' :: cs'
  · obtain ⟨cs', rfl⟩ := hplus
    exact ⟨['+'], cs', rfl, rfl, fun n => ⟨n, .plus⟩⟩
  by_cases hminus : ∃ cs', cs = '-' :: cs'
  · obtain ⟨cs', rfl⟩ := hminus
    exact ⟨['-'], cs', rfl, rfl, fun n => ⟨-n, .minus⟩⟩
  refine ⟨[], cs, rfl, ?_, fun n => ⟨n, .plain⟩⟩
  cases cs with
  | nil => rfl
  | cons c cs =>
    have hplus' : c ≠ '+' := fun h => hplus ⟨cs, by rw [h]⟩
    have hminus' : c ≠ '-' := fun h => hminus ⟨cs, by rw [h]⟩
    simp [signLength, isSign, hplus', hminus']

/-- No magnitude starts with a sign. -/
theorem not_isSign_of_scanUnsigned (h : scanUnsigned? cs = some k) :
    cs.head?.any isSign = false ∧ (cs.take k).head?.any isSign = false := by
  obtain ⟨hk, c, cs', rfl, hc⟩ := scanUnsigned?_pos h
  have hsign : isSign c = false := by
    simp only [isSign, Bool.or_eq_false_iff, beq_eq_false_iff_ne]
    constructor <;> (rintro rfl; cases hc)
  obtain ⟨k, rfl⟩ := Nat.exists_eq_succ_of_ne_zero hk.ne'
  exact ⟨hsign, hsign⟩

theorem scanInteger?_le (h : scanInteger? cs = some k) : k ≤ cs.length := by
  obtain ⟨k, hk, rfl⟩ := Option.map_eq_some_iff.mp h
  have hpos := (scanUnsigned?_pos hk).1
  have hle : k ≤ (cs.drop (signLength cs)).length := by
    rw [Form.scanUnsigned?_eq, Option.or_eq_some_iff, Option.or_eq_some_iff] at hk
    obtain h | ⟨-, h | ⟨-, h⟩⟩ := hk <;> exact (Form.spells_of_scan h).1
  rw [List.length_drop] at hle
  omega

/-- **The literals are those that are scanned**, each with its number. -/
theorem integerAt_iff : IntegerAt cs literal i ↔
    ∃ k, scanInteger? cs = some k ∧ literal = cs.take k ∧ i = integerValue literal := by
  constructor
  · rintro ⟨hsigned, hmagnitude⟩
    rename_i sign cs word n
    obtain ⟨k, hk, rfl, rfl⟩ := magnitude_iff.mp hmagnitude
    obtain ⟨hcs, hword⟩ := not_isSign_of_scanUnsigned hk
    refine ⟨sign.length + k, ?_, (List.take_length_add_append k).symm, ?_⟩
    · rw [scanInteger?, hsigned.signLength_append hcs, List.drop_left, hk, Option.map_some]
    · exact (hsigned.integerValue_append hword).symm
  · rintro ⟨k, hk, rfl, rfl⟩
    obtain ⟨sign, cs, rfl, hlength, hsigned⟩ := exists_signed cs
    rw [scanInteger?, hlength, List.drop_left] at hk
    obtain ⟨k, hscan, rfl⟩ := Option.map_eq_some_iff.mp hk
    obtain ⟨i, hi⟩ := hsigned (unsignedValue (cs.take k))
    obtain ⟨-, hword⟩ := not_isSign_of_scanUnsigned hscan
    rw [List.take_length_add_append, hi.integerValue_append hword]
    exact .mk hi (magnitude_iff.mpr ⟨k, hscan, rfl, rfl⟩)

/-! ### Written numbers -/

/-- Nothing in `rest` could continue a literal, or make a fraction of it. -/
def Apart (rest : List Char) : Prop :=
  ∀ c, rest.head? = some c → (∀ d, ¬ HexDigit c d) ∧ c ≠ 'x' ∧ c ≠ 'X' ∧ c ≠ '.'

theorem Apart.takeWhile_eq_nil (h : Apart rest) (form : Form) :
    rest.takeWhile form.isDigit = [] := by
  cases rest with
  | nil => rfl
  | cons c rest =>
    refine List.takeWhile_cons_of_neg fun hc => ?_
    exact (h c rfl).1 _ (.of_isHexDigit (Form.isDigit_iff.mp hc).1)

namespace Form

/-- A word that stands apart is read to its end, and in no other form. -/
theorem Spells.scanUnsigned_append (h : form.Spells word n) (hrest : Apart rest) :
    scanUnsigned? (word ++ rest) = some word.length := by
  have hend := hrest.takeWhile_eq_nil form
  rw [scanUnsigned?_eq]
  cases h with
  | @decimal c digits n hc h =>
    have hdigits := (digits_iff .decimal).mp h
    obtain ⟨hdigit, hdigits⟩ := List.forall_mem_cons.mp hdigits.1
    have hrun : runLength Char.isDigit (digits ++ rest) = digits.length :=
      Lexeme.runLength_append hdigits hend
    have hscan : Form.decimal.scan? (c :: (digits ++ rest)) = some (1 + digits.length) := by
      rw [scan?, if_pos ⟨hc, hdigit⟩, hrun]
    rw [List.cons_append, hscan, Option.some_or, List.length_cons, Nat.add_comm]
  | @hexadecimal x digits n hx hne h =>
    have hrun : runLength isHexDigit (digits ++ rest) = digits.length :=
      Digits.runLength_append .hexadecimal h hend
    have hscan : Form.hexadecimal.scan? ('0' :: x :: (digits ++ rest)) =
        some (2 + digits.length) := by
      rw [scan?, hrun, if_pos ⟨hx, List.length_pos_of_ne_nil hne⟩]
    have hdecimal : Form.decimal.scan? ('0' :: x :: (digits ++ rest)) = none := rfl
    rw [List.cons_append, List.cons_append, hdecimal, Option.none_or, hscan, Option.some_or,
      List.length_cons, List.length_cons, Nat.add_comm]
  | @octal digits n h =>
    have hrun : runLength isOctalDigit (digits ++ rest) = digits.length :=
      Digits.runLength_append .octal h hend
    have hdecimal : Form.decimal.scan? ('0' :: (digits ++ rest)) = none := rfl
    have hhex : Form.hexadecimal.scan? ('0' :: (digits ++ rest)) = none := by
      cases hcs : digits ++ rest with
      | nil => rfl
      | cons x cs =>
        refine if_neg fun hx => ?_
        cases digits with
        | nil =>
          obtain ⟨-, hx', hX, -⟩ := hrest x (by rw [← List.nil_append rest, hcs, List.head?_cons])
          exact hx.1.elim hx' hX
        | cons d digits =>
          have hd := ((digits_iff .octal).mp h).1 d List.mem_cons_self
          obtain ⟨rfl, -⟩ := List.cons.inj hcs
          obtain ⟨rfl | rfl, -⟩ := hx <;> cases hd
    rw [List.cons_append, hdecimal, Option.none_or, hhex, Option.none_or, scan?, hrun,
      List.length_cons, Nat.add_comm]

end Form

theorem Rendering.spells (h : Rendering i literal) :
    ∃ sign word n form, literal = sign ++ word ∧ Signed sign n i ∧ Form.Spells form word n := by
  have hhex := digits_toDigits .hexadecimal (by decide)
  cases h with
  | @decimal sign n i hsigned =>
    rcases Nat.eq_zero_or_pos n with rfl | hpos
    · exact ⟨sign, _, 0, .octal, rfl, hsigned, .octal .nil⟩
    · obtain ⟨c, cs, hcs, hc⟩ := head_toDigits hpos
      have hdigits := digits_toDigits .decimal (by decide) n
      rw [Form.base, hcs] at hdigits
      exact ⟨sign, _, n, .decimal, congrArg (sign ++ ·) hcs, hsigned, .decimal hc hdigits⟩
  | @hexadecimal sign n i x hsigned hx =>
    exact ⟨sign, _, n, .hexadecimal, rfl, hsigned, .hexadecimal hx Nat.toDigits_ne_nil (hhex n)⟩
  | @upperHexadecimal sign n i x hsigned hx =>
    have hne : (Nat.toDigits 16 n).map Char.toUpper ≠ [] := by simp [Nat.toDigits_ne_nil]
    exact ⟨sign, _, n, .hexadecimal, rfl, hsigned, .hexadecimal hx hne (hhex n).upper⟩
  | @octal sign n i hsigned =>
    have hdigits := digits_toDigits .octal (by decide) n
    exact ⟨sign, _, n, .octal, rfl, hsigned, .octal hdigits⟩

/-- A written number that stands apart is the literal, and stands for itself. -/
theorem Rendering.integerAt (h : Rendering i literal) (hrest : Apart rest) :
    IntegerAt (literal ++ rest) literal i := by
  obtain ⟨sign, word, n, form, rfl, hsigned, hspells⟩ := h.spells
  rw [List.append_assoc]
  refine .mk hsigned (magnitude_iff.mpr ⟨word.length, hspells.scanUnsigned_append hrest, ?_, ?_⟩)
  · exact List.take_left.symm
  · exact hspells.value.symm

end Lexeme

namespace Terminal

open Lexeme

variable {r : Reader} {literal : List Char} {i : Int}

theorem toWord?_of_bounds (hlo : -2 ^ 63 ≤ i) (hhi : i ≤ 2 ^ 63 - 1) :
    ∃ n : Int64, n.toInt = i ∧ toWord? i = some n := by
  have hrange : -Int.pow 2 63 ≤ i ∧ i < Int.pow 2 63 := ⟨hlo, Int.lt_of_le_sub_one hhi⟩
  refine ⟨Int64.ofInt i, Int64.toInt_ofInt_of_le hlo (Int.lt_of_le_sub_one hhi), ?_⟩
  rw [toWord?, if_pos hrange]

theorem toWord?_of_not_bounds (h : ¬ (-2 ^ 63 ≤ i ∧ i ≤ 2 ^ 63 - 1)) : toWord? i = none :=
  if_neg fun hrange => h ⟨hrange.1, Int.le_sub_one_of_lt hrange.2⟩

/-- What is read at a literal, in the order in which it is decided. -/
theorem read_integer_of_literal (h : IntegerAt r.token.rest literal i) : integer.read r =
    let next := r.token.skip literal.length
    if next.peek? = some '.' then ∅
    else match toWord? i with
      | some n => leaf "INT" (.int n) r.token.cursor next
      | none => .failed (.parse r.token.cursor
          ("integer value out of range: " ++ String.ofList literal)) := by
  obtain ⟨k, hk, rfl, rfl⟩ := integerAt_iff.mp h
  have hlength : (r.token.rest.take k).length = k := List.length_take_of_le (scanInteger?_le hk)
  rw [read, readInteger, Reader.lex?, hk, hlength]
  rfl

/-- **Integer literals are read at their exact value**: a literal that a point follows is left
alone, any other is a leaf with its integer if that fits into 64 bits and a fault at its start
if not, and without a literal there is nothing. So an integer written in any form is read back. -/
theorem integer_exact (r : Reader) :
    (∀ literal i, IntegerAt r.token.rest literal i →
      let next := r.token.skip literal.length
      (next.peek? = some '.' → integer.read r = ∅) ∧
      (next.peek? ≠ some '.' → -2 ^ 63 ≤ i → i ≤ 2 ^ 63 - 1 → ∃ n : Int64, n.toInt = i ∧
        integer.read r =
          .matched ⟨some (.leaf "INT" (.int n) r.token.cursor next.cursor), next⟩) ∧
      (next.peek? ≠ some '.' → ¬ (-2 ^ 63 ≤ i ∧ i ≤ 2 ^ 63 - 1) →
        integer.read r = .failed (.parse r.token.cursor
          ("integer value out of range: " ++ String.ofList literal)))) ∧
    ((∀ literal i, ¬ IntegerAt r.token.rest literal i) → integer.read r = ∅) ∧
    (∀ (n : Int64) literal rest, Rendering n.toInt literal → r.token.rest = literal ++ rest →
      Apart rest →
      let next := r.token.skip literal.length
      next.rest = rest ∧ integer.read r =
        .matched ⟨some (.leaf "INT" (.int n) r.token.cursor next.cursor), next⟩) := by
  refine ⟨fun literal i h => ?_, fun h => ?_, fun n literal rest h hr hrest => ?_⟩
  · have hread := read_integer_of_literal h
    refine ⟨fun hdot => hread.trans (if_pos hdot), fun hdot hlo hhi => ?_, fun hdot hout => ?_⟩
    · obtain ⟨n, hn, hword⟩ := toWord?_of_bounds hlo hhi
      refine ⟨n, hn, hread.trans ?_⟩
      rw [if_neg hdot, hword]
      rfl
    · rw [hread, if_neg hdot, toWord?_of_not_bounds hout]
  · have hscan : scanInteger? r.token.rest = none :=
      Option.eq_none_iff_forall_ne_some.mpr fun k hk =>
        h _ _ (integerAt_iff.mpr ⟨k, hk, rfl, rfl⟩)
    rw [read, readInteger, Reader.lex?, hscan]
    rfl
  · have hliteral : IntegerAt r.token.rest literal n.toInt := hr ▸ h.integerAt hrest
    have hnext : (r.token.skip literal.length).rest = rest := by
      rw [Reader.rest_skip, hr, List.drop_left]
    have hdot : (r.token.skip literal.length).peek? ≠ some '.' := fun hpeek => by
      rw [Reader.peek?, hnext] at hpeek
      exact (hrest '.' hpeek).2.2.2 rfl
    obtain ⟨n', hn', hword⟩ := toWord?_of_bounds (Int64.le_toInt n)
      (Int.le_sub_one_of_lt (Int64.toInt_lt n))
    obtain rfl := Int64.toInt_inj.mp hn'
    refine ⟨hnext, (read_integer_of_literal hliteral).trans ?_⟩
    rw [if_neg hdot, hword]
    rfl

/-- The lowest integer, in hexadecimal digits after a blank. -/
theorem integer_exact_lowest :
    Rendering Int64.minValue.toInt "-0x8000000000000000".toList ∧
    ∃ next, integer.read (Reader.ofText " -0x8000000000000000" true) =
      .matched ⟨some (.leaf "INT" (.int Int64.minValue) ⟨1, 1, 2⟩ ⟨20, 1, 21⟩), next⟩ := by
  have hrendering : Rendering Int64.minValue.toInt "-0x8000000000000000".toList := by
    have hdigits : "-0x8000000000000000".toList = '-' :: '0' :: 'x' :: Nat.toDigits 16 (2 ^ 63) := by
      decide
    have hsigned : Signed ['-'] (2 ^ 63) Int64.minValue.toInt := .minus
    rw [hdigits]
    exact Rendering.hexadecimal hsigned (.inl rfl)
  have hread := (integer_exact (Reader.ofText " -0x8000000000000000" true)).2.2
    Int64.minValue _ [] hrendering (by decide) nofun
  exact ⟨hrendering, _, hread.2⟩

end Terminal
end Curtail
