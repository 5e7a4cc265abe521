/-
# Sets of code points as ranges

A Unicode property is a set of code points; it is kept as a list of closed
ranges in ascending order, so that looking a character up stops at the first
range that starts beyond it. Ranges that touch are kept as one, so equal sets
are equal lists.

Key definitions: `Text.Ranges`, `Text.Ranges.has`, `Text.Ranges.add`,
`Text.Ranges.complement`.
-/

namespace Curtail
namespace Text

/-- Closed ranges of code points, ascending and disjoint. -/
abbrev Ranges := List (Nat × Nat)

/-- Whether `n` lies in one of the ranges. -/
def Ranges.has : Ranges → Nat → Bool
  | [], _ => false
  | (lo, hi) :: rest, n => if n < lo then false else decide (n ≤ hi) || Ranges.has rest n

theorem Ranges.has_cons (lo hi n : Nat) (rest : Ranges) :
    Ranges.has ((lo, hi) :: rest) n = (decide (lo ≤ n) && (decide (n ≤ hi) || Ranges.has rest n)) := by
  by_cases h : n < lo
  · simp [Ranges.has, h, Nat.not_le.mpr h]
  · simp [Ranges.has, h, Nat.not_lt.mp h]

/-- One more range; those that meet or touch it become one with it. -/
def Ranges.add (lo hi : Nat) : Ranges → Ranges
  | [] => [(lo, hi)]
  | (a, b) :: rest =>
    if hi + 1 < a then (lo, hi) :: (a, b) :: rest
    else if b + 1 < lo then (a, b) :: Ranges.add lo hi rest
    else Ranges.add (min lo a) (max hi b) rest

/-- The code points of either set. -/
def Ranges.union (s t : Ranges) : Ranges := s.foldl (fun t (lo, hi) => Ranges.add lo hi t) t

/-- The last code point. -/
def lastCodePoint : Nat := 0x10FFFF

/-- The code points from `start` on that are in no range. -/
def Ranges.gaps (start : Nat) : Ranges → Ranges
  | [] => if start ≤ lastCodePoint then [(start, lastCodePoint)] else []
  | (lo, hi) :: rest =>
    if start < lo then (start, lo - 1) :: Ranges.gaps (hi + 1) rest else Ranges.gaps (hi + 1) rest

/-- The code points that are not in the set. -/
def Ranges.complement (s : Ranges) : Ranges := Ranges.gaps 0 s

/-- The code points of both sets. -/
def Ranges.inter (s t : Ranges) : Ranges :=
  Ranges.complement (Ranges.union (Ranges.complement s) (Ranges.complement t))

/-- The code points of `s` that are not in `t`. -/
def Ranges.minus (s t : Ranges) : Ranges := Ranges.inter s (Ranges.complement t)

end Text
end Curtail
