/-
# Builders

A builder folds the nodes that a sequence or a repetition matched into one
node, or into none. Matches of nothing carry no node and are not among them.

Key definitions: `Builder`, `Builder.discard`, `Builder.select`,
`Builder.group`, `Builder.flatList`.
-/
import Curtail.Node
import Curtail.Value.Text

namespace Curtail

/-- Folds matched nodes into one node or none. -/
abbrev Builder := List Node → Option Node

namespace Builder

/-- No node at all. -/
def discard : Builder := fun _ => none

/-- One of the nodes. -/
def select (i : Nat) : Builder := fun nodes => nodes[i]?

/-- All nodes under a new branch. -/
def group (token : String) (interpreter : Option Interpreter) : Builder := fun nodes =>
  some (.group token nodes interpreter)

/-- The values of all nodes as one text, nothing if there is no node or no value. -/
def concatenate : Builder := fun nodes =>
  match nodes.head?, nodes.getLast?, Node.valuesOf .none (Node.views nodes) with
  | some first, some last, .ok values =>
    some (.leaf "STR" (.text (String.join (values.map Value.plainText))) first.start last.stop)
  | _, _, _ => none

/-- The token of a separator with the item that follows it. -/
def pairToken : String := "@sep_by.pair"

/-- The token of all pairs after the first item of a separated list. -/
def tailToken : String := "@sep_by.tail"

/-- Whether a node only holds a separated list together. -/
def isGlue (token : String) (interpreter : Option Interpreter) : Bool :=
  !interpreter.isSome && (token == pairToken || token == tailToken)

mutual

/-- What a node contributes to a separated list: itself, or what it holds together. -/
def flatten : Node → List Node
  | .leaf t v p q => [.leaf t v p q]
  | .branch t cs i p q => if isGlue t i then flattenAll cs else [.branch t cs i p q]

def flattenAll : List Node → List Node
  | [] => []
  | n :: ns => flatten n ++ flattenAll ns

end

/-- The items and separators of a list under a new branch. -/
def flatList (token : String) (interpreter : Option Interpreter) : Builder := fun nodes =>
  some (.group token (flattenAll nodes) interpreter)

end Builder
end Curtail
