/-
# Matches

A match is one way a parser matched: the node it built, if any, and the
reader right after the match. The matches of one call are kept in order of
where they end, at most one for each end.

Key definitions: `Match`, `Matches`.
-/
import Curtail.Ascending
import Curtail.Node
import Curtail.Text.Reader

namespace Curtail

/-- One way a parser matched; without a node it matched nothing, or nothing worth a node. -/
structure Match where
  node : Option Node
  reader : Reader

namespace Match

/-- Where the match ends. -/
def stop (m : Match) : Position := m.reader.cursor

/-- The byte offset at which the match ends. -/
def stopOffset (m : Match) : Nat := m.reader.cursor.offset

/-- The value of the match; nothing if it has no node. -/
def value (m : Match) (ctx : Context) : Except Fault Value :=
  match m.node with
  | some node => node.value ctx
  | none => .ok .nil

end Match

/-- Matches in ascending order of their ends. -/
abbrev Matches := Ascending Match.stopOffset

end Curtail
