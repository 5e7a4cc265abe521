/-
# The size of a pattern

A pattern must not take more memory than a fixed limit. What counts is what
its parts take one by one: a state for each byte of a certain character, a few
states for a set of characters of ASCII, a state for each byte of every run of
other characters, and the forks between repetitions and alternatives; a part
that is repeated counts as often as it is repeated.

A set of characters beyond ASCII is cut into runs whose encodings are ranges
byte by byte; runs that begin with the same ranges share the states for them.

Key definitions: `Pattern.cuts`, `Pattern.Tree.size`, `Pattern.sizeLimit`.
-/
import Curtail.Pattern.Tree
import Curtail.Text.Bytes

namespace Curtail
namespace Pattern

/-- The numbers from `lo` to `hi`, written with `digits` digits of six bits after the first digit,
as runs of independent ranges of digits. -/
def cuts : (digits : Nat) → (lo hi : Nat) → List (List (Nat × Nat))
  | 0, lo, hi => [[(lo, hi)]]
  | digits + 1, lo, hi =>
    let unit := Nat.pow 64 (digits + 1)
    let a := lo / unit
    let b := hi / unit
    if a = b then (cuts digits (lo % unit) (hi % unit)).map ((a, a) :: ·)
    else
      let low := if lo % unit = 0 then [] else (cuts digits (lo % unit) (unit - 1)).map ((a, a) :: ·)
      let high := if hi % unit + 1 = unit then [] else (cuts digits 0 (hi % unit)).map ((b, b) :: ·)
      let first := if lo % unit = 0 then a else a + 1
      let stop := if hi % unit + 1 = unit then b + 1 else b
      let middle :=
        if first < stop then [(first, stop - 1) :: List.replicate (digits + 1) (0, 63)] else []
      low ++ middle ++ high

/-- The code points that take one byte, two bytes, three or four, with the digits after the first;
surrogates are left out. -/
def encodings : List (Nat × Nat × Nat) :=
  [(0, 0, 0x7F), (1, 0x80, 0x7FF), (2, 0x800, 0xD7FF), (2, 0xE000, 0xFFFF), (3, 0x10000, 0x10FFFF)]

/-- A set of characters as runs of byte ranges. -/
def byteRuns (ranges : Text.Ranges) : List (List (Nat × Nat)) :=
  ranges.flatMap fun (lo, hi) =>
    encodings.flatMap fun (digits, first, last) =>
      if max lo first ≤ min hi last then cuts digits (max lo first) (min hi last) else []

/-- How many ranges of a run are not shared with the run before it. -/
def unshared (before run : List (Nat × Nat)) : Nat :=
  if before.length = run.length then run.length - (Tree.commonStart before run).length else run.length

/-- The bytes of a state. -/
def stateSize : Nat := 32

/-- The bytes of one way out of a fork. -/
def waySize : Nat := 4

/-- The bytes of a range of characters. -/
def rangeSize : Nat := 8

/-- What runs of byte ranges take. -/
def runsSize (before : List (Nat × Nat)) : List (List (Nat × Nat)) → Nat
  | [] => 0
  | run :: runs => stateSize * unshared before run + waySize + runsSize run runs

/-- What a set of characters takes. -/
def setSize (s : CharSet) : Nat :=
  if s.isSingle then stateSize * Text.byteLength (s.ranges.map fun (n, _) => Char.ofNat n)
  else if s.ranges.all fun (_, hi) => hi < 0x80 then 2 * stateSize + rangeSize * s.ranges.length
  else 2 * stateSize + runsSize [] (byteRuns s.ranges)

namespace Tree

/-- What a fork with two ways takes. -/
def forkSize : Nat := stateSize + 2 * waySize

/-- What a repetition takes if one round takes `size`. -/
def timesSize (size : Nat) (reads : Bool) (least : Nat) (most : Option Nat) : Nat :=
  match least, most with
  | 0, none => if reads then size + forkSize else size + 2 * forkSize + stateSize
  | least, none => least * size + forkSize
  | 0, some 1 => size + forkSize + stateSize
  | least, some most =>
    least * size + (if least = 0 then stateSize else 0) +
      (if most ≤ least then 0 else stateSize + (most - least) * (size + forkSize))

/-- What a tree takes. -/
def size : Tree → Nat
  | nothing | anchor _ => stateSize
  | one s => setSize s
  | group _ p => p.size + 2 * stateSize
  | both p q => p.size + q.size
  | either p q => p.size + q.size + (match q with | either _ _ => waySize | _ => forkSize + stateSize)
  | times p least most _ => timesSize p.size p.readsSomething least most

end Tree

/-- What every pattern takes besides its tree. -/
def baseSize : Nat := 144

/-- The most that a pattern may take: ten mebibytes. -/
def sizeLimit : Nat := 10 * Nat.pow 2 20

/-- Whether a pattern is not too large. -/
def Tree.fits (p : Tree) : Bool := decide (baseSize + p.size ≤ sizeLimit)

end Pattern
end Curtail
