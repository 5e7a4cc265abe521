/-
# Syntax trees as text

Key definitions: `Node.text`, `Node.debugText`.
-/
import Curtail.Node
import Curtail.Value.Text

namespace Curtail
namespace Node

mutual

/-- A tree on one line: leaves with their values and places, branches with their children. -/
def text : Node → String
  | leaf t v p q => "T\x7b" ++ s!"{t}, {v.plainText}, {p.text}..{q.text}" ++ "\x7d"
  | branch t cs _ _ _ => "NT\x7b" ++ t ++ ", [" ++ String.intercalate ", " (texts cs) ++ "]\x7d"

def texts : List Node → List String
  | [] => []
  | n :: ns => text n :: texts ns

end

mutual

/-- A tree with all its fields named. -/
def debugText : Node → String
  | leaf t v p q =>
    "Terminal(TerminalNode \x7b token: " ++ Text.quoted t ++ ", value: " ++ v.debugText ++
      ", pos: " ++ p.debugText ++ ", reader_pos: " ++ q.debugText ++ " \x7d)"
  | branch t cs i p q =>
    "NonTerminal(NonTerminalNode \x7b token: " ++ Text.quoted t ++ ", children: [" ++
      String.intercalate ", " (debugTexts cs) ++ "], interpreter: " ++
      (if i.isSome then "true" else "false") ++
      ", pos: " ++ p.debugText ++ ", reader_pos: " ++ q.debugText ++ " \x7d)"

def debugTexts : List Node → List String
  | [] => []
  | n :: ns => debugText n :: debugTexts ns

end

end Node
end Curtail
