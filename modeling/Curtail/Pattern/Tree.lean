/-
# Patterns as trees

A pattern describes how a text may start. Of several ways to match, the first
in the order of the pattern is taken: the left alternative before the right
one, more repetitions before fewer, or fewer before more if the repetition is
reluctant.

Trees are put together by functions that simplify them. A part that reads
nothing is repeated at most once, no repetition leaves nothing, alternatives
that read one character each become one set, and what all alternatives begin
with stands in front of them, once.

Key definitions: `Pattern.Tree`, `Pattern.Tree.repeated`,
`Pattern.Tree.inOrder`, `Pattern.Tree.firstOf`.
-/
import Curtail.Pattern.CharSet

namespace Curtail
namespace Pattern

/-- A condition on a place in the text, told by the characters on both sides of it. -/
inductive Anchor where
  | textStart
  | textEnd
  | lineStart
  | lineEnd
  /-- A word begins or ends here. -/
  | wordEdge
  /-- No word begins or ends here. -/
  | noWordEdge
deriving DecidableEq, Repr, Inhabited

/-- Whether the condition holds between two characters; a missing one is an end of the text. -/
def Anchor.holds (before after : Option Char) : Anchor → Bool
  | textStart => before.isNone
  | textEnd => after.isNone
  | lineStart => before.all (· == '\n')
  | lineEnd => after.all (· == '\n')
  | wordEdge => before.any Text.isWord != after.any Text.isWord
  | noWordEdge => before.any Text.isWord == after.any Text.isWord

/-- A pattern in tree form. -/
inductive Tree where
  | nothing
  | one (s : CharSet)
  | anchor (a : Anchor)
  | group (index : Nat) (p : Tree)
  | both (p q : Tree)
  | either (p q : Tree)
  | times (p : Tree) (least : Nat) (most : Option Nat) (greedy : Bool)
deriving DecidableEq, Repr, Inhabited

namespace Tree

/-- Whether no match of the tree reads a character. -/
def readsNothing : Tree → Bool
  | nothing | anchor _ => true
  | one _ => false
  | group _ p | times p _ _ _ => p.readsNothing
  | both p q | either p q => p.readsNothing && q.readsNothing

/-- The least number of characters that a match reads; unknown if a part of the tree never
matches. -/
def shortest? : Tree → Option Nat
  | nothing | anchor _ => some 0
  | one s => if s.ranges.isEmpty then none else some 1
  | group _ p => p.shortest?
  | both p q => p.shortest?.bind fun m => q.shortest?.map (m + ·)
  | either p q => p.shortest?.bind fun m => q.shortest?.map (min m ·)
  | times p least _ _ => p.shortest?.map (least * ·)

/-- Whether every match of the tree is known to read a character. -/
def readsSomething (p : Tree) : Bool := p.shortest?.any (0 < ·)

/-- The highest number of a group in the tree, zero if there is none. -/
def groups : Tree → Nat
  | nothing | anchor _ | one _ => 0
  | group index p => max index p.groups
  | both p q | either p q => max p.groups q.groups
  | times p _ _ _ => p.groups

/-- From `least` to `most` repetitions. One that reads nothing need not be done twice. -/
def repeated (p : Tree) (least : Nat) (most : Option Nat) (greedy : Bool) : Tree :=
  let (least, most) :=
    if p.readsNothing then (min least 1, some (min (most.getD 1) 1)) else (least, most)
  if most = some 0 then nothing
  else if least = 1 ∧ most = some 1 then p
  else times p least most greedy

/-! ### One after the other -/

/-- The parts of a tree that follow one another. -/
def factors : Tree → List Tree
  | nothing => []
  | both p q => p.factors ++ q.factors
  | p => [p]

/-- Parts in a row. -/
def chain : List Tree → Tree
  | [] => nothing
  | [p] => p
  | p :: ps => both p (chain ps)

/-- Trees one after the other. -/
def inOrder (ps : List Tree) : Tree := chain (ps.flatMap factors)

/-! ### Alternatives -/

/-- The alternatives of a tree. -/
def branches : Tree → List Tree
  | either p q => p.branches ++ q.branches
  | p => [p]

/-- The set of characters of a tree that reads just one. -/
def set? : Tree → Option CharSet
  | one s => some s
  | _ => none

/-- Alternatives side by side; those that read one character each are one set. -/
def choice (ps : List Tree) : Tree :=
  match ps.mapM set? with
  | some (s :: ss) => one (ss.foldl .union s)
  | _ =>
    match ps.reverse with
    | [] => nothing
    | p :: before => before.foldl (fun q p => either p q) p

/-- Whether a tree reads one certain character. -/
def isLiteral : Tree → Bool
  | one s => s.isSingle
  | _ => false

/-- Parts in a row as blocks: a word of certain characters is one block, every other part is a
block of its own. -/
def blocks (ps : List Tree) : List (List Tree) :=
  ps.splitBy fun p q => p.isLiteral && q.isLiteral

/-- What two lists begin with. -/
def commonStart {α : Type} [DecidableEq α] : List α → List α → List α
  | a :: as, b :: bs => if a = b then a :: commonStart as bs else []
  | _, _ => []

/-- The blocks that all alternatives begin with; none if one alternative is a single block. -/
def sharedStart (rows : List (List (List Tree))) : List (List Tree) :=
  match rows with
  | row :: rows@(_ :: _) =>
    if (row :: rows).all (1 < ·.length) then rows.foldl commonStart row else []
  | _ => []

/-- Alternatives side by side, with what all of them begin with in front of them. -/
def factored (ps : List Tree) : Tree :=
  let rows := ps.map fun p => blocks p.factors
  let shared := sharedStart rows
  if shared.isEmpty then choice ps
  else
    let rest := rows.map fun row => inOrder (row.drop shared.length).flatten
    inOrder (shared.flatten ++ [choice (rest.flatMap branches)])

/-- The first alternative that matches. -/
def firstOf : List Tree → Tree
  | [p] => p
  | ps => factored (ps.flatMap branches)

end Tree
end Pattern
end Curtail
