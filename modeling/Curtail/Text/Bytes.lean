/-
# Characters and their bytes

Offsets count bytes of UTF-8, texts are read character by character. These
functions connect the two: how many bytes a text takes, and what is left of
it from a byte offset on.

Key definitions: `Text.byteLength`, `Text.dropBytes`, `Text.trimEnd`.
Key theorems: `Text.dropBytes_byteLength`, `Text.dropBytes_add`.
-/
import Curtail.Text.Class

namespace Curtail
namespace Text

/-- The number of bytes of a text in UTF-8. -/
def byteLength : List Char → Nat
  | [] => 0
  | c :: cs => c.utf8Size + byteLength cs

@[simp] theorem byteLength_append (xs ys : List Char) :
    byteLength (xs ++ ys) = byteLength xs + byteLength ys := by
  induction xs with
  | nil => simp [byteLength]
  | cons c xs ih => simp [byteLength, ih, Nat.add_assoc]

/-- What is left of a text from a byte offset on: nothing if the offset lies past the end or
inside a character. -/
def dropBytes : List Char → Nat → List Char
  | cs, 0 => cs
  | [], _ + 1 => []
  | c :: cs, n + 1 => if c.utf8Size ≤ n + 1 then dropBytes cs (n + 1 - c.utf8Size) else []

@[simp] theorem dropBytes_zero (cs : List Char) : dropBytes cs 0 = cs := by
  cases cs <;> rfl

@[simp] theorem dropBytes_nil (n : Nat) : dropBytes [] n = [] := by
  cases n <;> rfl

theorem dropBytes_cons (c : Char) (cs : List Char) (n : Nat) (h : c.utf8Size ≤ n) :
    dropBytes (c :: cs) n = dropBytes cs (n - c.utf8Size) := by
  cases n with
  | zero => exact absurd h (Nat.not_le.mpr c.utf8Size_pos)
  | succ n => simp [dropBytes, h]

/-- From the end of a leading part the rest is left. -/
@[simp] theorem dropBytes_byteLength (xs ys : List Char) :
    dropBytes (xs ++ ys) (byteLength xs) = ys := by
  induction xs with
  | nil => simp [byteLength]
  | cons c xs ih =>
    rw [List.cons_append, dropBytes_cons _ _ _ (by simp [byteLength])]
    simpa [byteLength] using ih

/-- Whatever is left at an offset where something is left starts there in the text. -/
theorem exists_append_of_dropBytes {cs : List Char} {n : Nat} (h : dropBytes cs n ≠ []) :
    ∃ xs, cs = xs ++ dropBytes cs n ∧ byteLength xs = n := by
  induction cs generalizing n with
  | nil => simp at h
  | cons c cs ih =>
    cases n with
    | zero => exact ⟨[], by simp, rfl⟩
    | succ n =>
      by_cases hc : c.utf8Size ≤ n + 1
      · rw [dropBytes_cons _ _ _ hc] at h ⊢
        obtain ⟨xs, hxs, hlen⟩ := ih h
        exact ⟨c :: xs, by rw [List.cons_append, ← hxs], by simp only [byteLength]; omega⟩
      · simp [dropBytes, hc] at h

/-- Dropping further drops from what is left. -/
theorem dropBytes_add {cs xs ys : List Char} {n : Nat} (h : dropBytes cs n = xs ++ ys) :
    dropBytes cs (n + byteLength xs) = ys := by
  cases xs with
  | nil => simpa [byteLength] using h
  | cons c xs =>
    have hne : dropBytes cs n ≠ [] := by simp [h]
    obtain ⟨zs, hzs, hlen⟩ := exists_append_of_dropBytes hne
    rw [h, ← List.append_assoc] at hzs
    rw [hzs, ← hlen, ← byteLength_append, dropBytes_byteLength]

/-- A text without the blanks at its end. -/
def trimEnd (cs : List Char) : List Char := (cs.reverse.dropWhile isBlank).reverse

end Text
end Curtail
