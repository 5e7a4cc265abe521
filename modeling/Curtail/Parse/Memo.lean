/-
# What a parser remembers

A memo hands out identities, counts calls, and keeps, for each identity and
offset, every match found there so far. When a left-recursive parser is
entered again at the same offset, matches of an earlier and deeper pass are
joined to the new ones; on one end the new match is kept.

Identities are handed out in order of first use, so they are dense.

Key definitions: `Key`, `Memo`, `Memo.register`, `Memo.grow`.
Key theorems: `Memo.known_grow`.
-/
import Curtail.Parse.Match
import Std.Data.TreeMap.Lemmas

namespace Curtail

/-- What tells parsers apart that can recurse; each has one from its construction on. -/
structure Key where
  number : Nat
deriving DecidableEq, Repr

/-- Matches by identity and, below it, by offset. -/
abbrev Remembered := Std.TreeMap Nat (Std.TreeMap Nat Matches)

/-- The memory of a parse; the identity of a key is its index in `keys`. -/
structure Memo where
  keys : List Key
  calls : Nat
  remembered : Remembered

namespace Memo

/-- Nothing registered, called or found yet. -/
def fresh : Memo := ⟨[], 0, ∅⟩

instance : Inhabited Memo := ⟨fresh⟩

/-- The identity of a key, the next free one on first use. -/
def register (m : Memo) (key : Key) : Nat × Memo :=
  match m.keys.findIdx? (· == key) with
  | some id => (id, m)
  | none => (m.keys.length, { m with keys := m.keys ++ [key] })

/-- One more call. -/
def countCall (m : Memo) : Memo := { m with calls := m.calls + 1 }

/-- The matches of an identity found at an offset so far. -/
def known (m : Memo) (id offset : Nat) : Matches :=
  ((m.remembered[id]?).bind (·[offset]?)).getD ∅

/-- Remembers the matches of an identity at an offset, in place of those remembered there. -/
def record (m : Memo) (id offset : Nat) (found : Matches) : Memo :=
  let byOffset := (m.remembered[id]?).getD ∅
  { m with remembered := m.remembered.insert id (byOffset.insert offset found) }

/-- Joins new matches with those known and remembers them all; on one end the new one is kept. -/
def grow (m : Memo) (id offset : Nat) (found : Matches) : Matches × Memo :=
  let all := found ++ m.known id offset
  (all, m.record id offset all)

/-- Forgets all matches; they hold only for the text they were found in. -/
def forget (m : Memo) : Memo := { m with remembered := ∅ }

/-- Forgets everything. -/
def reset (_ : Memo) : Memo := fresh

@[simp] theorem known_forget (m : Memo) (id offset : Nat) : m.forget.known id offset = ∅ := by
  simp [forget, known]

theorem known_record (m : Memo) (id offset id' offset' : Nat) (found : Matches) :
    (m.record id offset found).known id' offset' =
      if id = id' ∧ offset = offset' then found else m.known id' offset' := by
  by_cases h : id = id'
  · subst h
    by_cases h' : offset = offset'
    · simp [known, record, h']
    · cases hm : m.remembered[id]? <;>
        simp [known, record, h', hm, Std.TreeMap.getElem?_insert]
  · simp [known, record, h, Std.TreeMap.getElem?_insert]

/-- After growing, an entry holds the new matches and those known before; others are unchanged. -/
theorem known_grow (m : Memo) (id offset id' offset' : Nat) (found : Matches) :
    (m.grow id offset found).2.known id' offset' =
      if id = id' ∧ offset = offset' then found ++ m.known id offset else m.known id' offset' :=
  known_record m id offset id' offset' _

end Memo

end Curtail
