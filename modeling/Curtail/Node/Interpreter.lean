/-
# Ready-made interpreters

Interpreters for separated lists (`items`, `sum`), for binary operations
(`operation`), and for looking at children without knowing what they are.
Arithmetic wraps around at 64 bits.

Key definitions: `Interpreter.items`, `Interpreter.operation`,
`Interpreter.nth`, `Interpreter.joined`.
-/
import Curtail.Node
import Curtail.Value.Text

namespace Curtail
namespace Interpreter

/-- Every other element of a list, from the first: the items of a separated list. -/
def alternate {α : Type} : List α → List α
  | [] => []
  | [a] => [a]
  | a :: _ :: rest => a :: alternate rest

/-- Where the first child starts; the start of the text if there is none. -/
def startOf (children : List Child) : Position := (children.head?.map (·.start)).getD .start

/-- The value of a child as an integer, zero if it is none. -/
def intOf (ctx : Context) (child : Child) : Except Fault Int64 :=
  (child.value ctx).map fun v => v.asInt?.getD 0

/-- The values of the items of a separated list. -/
def items : Interpreter := fun ctx children =>
  (Node.valuesOf ctx (alternate children)).map .list

/-- The sum of the items of a separated list. -/
def sum : Interpreter := fun ctx children =>
  (Node.valuesOf ctx (alternate children)).map fun vs =>
    .int ((vs.map fun v => v.asInt?.getD 0).foldl (· + ·) 0)

/-- A binary operation written between its operands. -/
def operation (op : Int64 → Int64 → Int64) : Interpreter := fun ctx children =>
  match children with
  | [a, _, b] => do
    let x ← intOf ctx a
    let y ← intOf ctx b
    return .int (op x y)
  | _ => .error (.eval (startOf children) s!"expected 3 nodes, got {children.length}")

/-- The value of one child, nothing if it is missing. -/
def nth (i : Nat) : Interpreter := fun ctx children =>
  match children[i]? with
  | some child => child.value ctx
  | none => .ok .nil

/-- The values of all children as one text, `suffix` after each. -/
def joined (suffix : String) : Interpreter := fun ctx children =>
  (Node.valuesOf ctx children).map fun vs =>
    .text (String.join (vs.map fun v => v.plainText ++ suffix))

/-- How many children there are. -/
def count : Interpreter := fun _ children => .ok (.int (Int64.ofNat children.length))

/-- The tokens of the children. -/
def tokens : Interpreter := fun _ children => .ok (.list (children.map fun c => .text c.token))

/-- Gives up with a message. -/
def refuse (message : String) : Interpreter := fun _ children =>
  .error (.eval (startOf children) message)

/-- The first child as an integer, multiplied by the context if that is one. -/
def scaled : Interpreter := fun ctx children => do
  let n ← (children.head?.map (intOf ctx)).getD (.ok 0)
  return .int (n * match ctx with | .int k => k | _ => 1)

/-- The values of all children as one text, the context between them if it is a text. -/
def joinedByContext : Interpreter := fun ctx children =>
  (Node.valuesOf ctx children).map fun vs =>
    .text (String.intercalate (match ctx with | .text s => s | _ => "") (vs.map Value.plainText))

end Interpreter
end Curtail
