/-
# Grammars and evaluation

A grammar is a root parser with its rules. Parsing a text runs the root over
it and takes the match that reaches the end, which need not be the longest
that was tried first; if there is none, the fault says where things went
wrong. Evaluation goes on to ask the node of that match for its value.

Parsing and evaluation can be given a session, which then shows what was
called and noted; matches remembered from an earlier text are forgotten first.

Key definitions: `Grammar`, `Grammar.call`, `Grammar.parse`,
`Grammar.evaluate`, `Grammar.evaluateText`.
-/
import Curtail.Parse.Parser

namespace Curtail

mutual

/-- The number of combinators and leaves in a parser. -/
def Parser.weight : Parser → Nat
  | .terminal _ => 1
  | .leaf _ => 1
  | .choice _ ps => 1 + weightAll ps
  | .sequence _ _ _ _ _ ps => 1 + weightAll ps
  | .repetition _ p => 1 + p.weight
  | .sentence p => 1 + p.weight
  | .orEmpty _ p => 1 + p.weight
  | .rule _ => 1

def weightAll : List Parser → Nat
  | [] => 0
  | p :: ps => p.weight + weightAll ps

end

/-- The definitions of the rules that have one. -/
def Rules.definitions (rules : Rules) : List Parser :=
  rules.entries.filterMap fun rule =>
    match rule.state with
    | .defined p => some p
    | _ => none

/-- A root parser with its rules. -/
structure Grammar where
  rules : Rules
  root : Parser

namespace Grammar

/-- The number of combinators and leaves in a grammar. -/
def weight (g : Grammar) : Nat := weightAll (g.root :: g.rules.definitions)

/-- A bound on how deep calls nest on a text: at each offset a sequence is entered at most twice more
than there are bytes left, and between two entries no part of the grammar is passed twice. -/
def fuel (g : Grammar) (r : Reader) : Nat :=
  let size := (g.weight + 8) * (r.source.limit + 8)
  64 * (size * size)

/-- A call of the root parser. -/
def call (g : Grammar) : Run := fun d r s => g.root.run g.rules (g.fuel r) d r s

/-- What the root parser is called. -/
def name (g : Grammar) : String := g.root.name

/-- The match of an outcome that reaches the end of the text, or the fault: the one reported, or that
the text goes on after the longest match, or that `name` was expected at the first token. -/
def select (name : String) (r : Reader) (out : Outcome) : Except Fault Match :=
  match out.results.last? with
  | none => .error (out.fault.getD (.expecting r.token.cursor name))
  | some last =>
    match out.results.items.find? (·.reader.atEnd) with
    | some m => .ok m
    | none =>
      let trailing := Fault.trailing last.reader.token.cursor
      .error ((Fault.furthest (some trailing) out.fault).getD trailing)

/-- Notes which sequences refused to recurse, if any did. -/
def noteRefusals (out : Outcome) (s : Session) : Session :=
  if out.curtailed.isEmpty then s else s.note (.refusals out.curtailed.ids)

/-- Parses the whole text; `none` is out of fuel. -/
def parse (g : Grammar) (r : Reader) (s : Session) : Option (Except Fault Match × Session) :=
  (g.call .zero r (s.note (.starting g.name r.cursor)).forget).map fun (out, s) =>
    (select g.name r out, noteRefusals out s)

/-- Parses the whole text and evaluates the match; a match without node has no value. -/
def evaluate (g : Grammar) (ctx : Context) (r : Reader) (s : Session) :
    Option (Except Fault Value × Session) :=
  (g.parse r s).map fun (result, s) =>
    match result with
    | .error f => (.error f, s)
    | .ok m => (m.value ctx, s.note (.success g.name s.memo.calls))

/-- Does something with a memo of its own; the present memo is left as it is. -/
def aside {α : Type} (act : Session → Option (α × Session)) (s : Session) : Option (α × Session) :=
  (act s.reset).map fun (a, after) => (a, { after with memo := s.memo })

/-- Evaluates a text with a memo of its own. -/
def evaluateText (g : Grammar) (ctx : Context) (text : String) (skipsBlanks : Bool) (s : Session) :
    Option (Except Fault Value × Session) :=
  aside (g.evaluate ctx (Reader.ofText text skipsBlanks)) s

end Grammar

end Curtail
