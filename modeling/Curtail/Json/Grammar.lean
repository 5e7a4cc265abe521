/-
# The grammar of JSON

A whole JSON document as a grammar: arrays evaluate to lists, objects to maps
in which a repeated key keeps its last value, and numbers to integers unless
they have a fraction or an exponent.

Key definitions: `Json.draft`, `Json.grammar`, `Json.evaluate`.
-/
import Curtail.Grammar.Draft
import Curtail.Node.Interpreter

namespace Curtail
namespace Json

/-! ### Interpreters -/

/-- `"key" : value` as a list of two. -/
def member : Interpreter := fun ctx children =>
  match children with
  | [key, _, value] => do
    let k ← key.value ctx
    let v ← value.value ctx
    return .list [k, v]
  | _ => .error (.eval (Interpreter.startOf children) "malformed object member")

/-- The entry that a value stands for, if it is a list of a text and a value. -/
def entryOf : Value → Option (String × Value)
  | .list [.text key, value] => some (key, value)
  | _ => none

/-- The members between braces as a map. -/
def object : Interpreter := fun ctx children =>
  match children with
  | [_, members, _] => (members.value ctx).map fun v =>
      Value.ofEntries ((v.asList?.getD []).filterMap entryOf)
  | _ => .error (.eval (Interpreter.startOf children) "malformed object")

/-! ### Rules -/

def comma : Draft := .terminal (.rune ',' ",")

/-- Values between brackets. -/
def array : Draft :=
  .sequence (some "array") (.select 1)
    [.terminal (.rune '[' "ARR_START"),
     .separated "ARR" (.reference "value") comma (some Interpreter.items) true,
     .terminal (.rune ']' "ARR_END")]

/-- A key and its value. -/
def pair : Draft :=
  .sequence none (.group "PAIR" (some member))
    [.terminal .quoted, .terminal (.rune ':' ":"), .reference "value"]

/-- Members between braces. -/
def objectDraft : Draft :=
  .sequence (some "object") (.group "OBJECT" (some object))
    [.terminal (.rune '\x7b' "OBJ_START"),
     .separated "PAIRS" pair comma (some Interpreter.items) true,
     .terminal (.rune '\x7d' "OBJ_END")]

/-- Any value. A number with a fraction is tried before an integer. -/
def valueDraft : Draft :=
  .choice "value"
    [.terminal .quoted,
     .choice "number" [.terminal .fraction, .terminal .integer],
     .terminal .truth,
     .nil "null",
     array,
     objectDraft]

/-- A whole document. -/
def draft : Draft := .scoped [("value", valueDraft)] (.sentence (.rule "value"))

/-- The grammar of a whole document. -/
def grammar : Except Fault Grammar := Draft.assemble ⟨[], [], draft, []⟩

/-- Evaluates a document in a session; `none` is out of fuel. -/
def evaluate (r : Reader) (s : Session) : Option (Except Fault Value × Session) :=
  match grammar with
  | .error f => some (.error f, s)
  | .ok g => g.evaluate .none r s

end Json
end Curtail
