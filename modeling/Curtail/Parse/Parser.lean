/-
# Parsers

A parser is a tree of combinators over terminals, leaves written by the
grammar's author, and handles to rules. Rules make grammars cyclic: a rule is
declared first and defined once, and handles to it stand wherever it is
needed. A handle that owns its rule keeps it alive; the others fail once the
rule is dropped.

What a parser does is its `run`; the fuel bounds how deep calls nest.

Key definitions: `Leaf`, `Handle`, `Parser`, `Rules`, `Parser.name`,
`Parser.run`.
-/
import Curtail.Parse.Run
import Curtail.Parse.Terminal

namespace Curtail

/-- A leaf written by the author of a grammar. -/
structure Leaf where
  name : String
  answer : Tally → Reader → Session → Outcome × Session

/-- A handle to the rule with index `id`. -/
structure Handle where
  id : Nat
  name : String
  owns : Bool
deriving DecidableEq, Repr

/-- A parser. -/
inductive Parser where
  | terminal (t : Terminal)
  | leaf (l : Leaf)
  /-- The first alternative that matches. -/
  | choice (name : String) (alternatives : List Parser)
  /-- Parts by index, of which as many as `accepts` says make a match: `lookup` says which of `parts`
  stands at an index, if any does. -/
  | sequence (key : Key) (label : Option String) (build : Builder) (accepts : Nat → Bool)
      (lookup : Nat → Option Nat) (parts : List Parser)
  /-- One part again and again. -/
  | repetition (bounds : Run.Bounds) (part : Parser)
  /-- A part that has to reach the end of the text. -/
  | sentence (part : Parser)
  /-- A part that may match nothing, as an empty branch. -/
  | orEmpty (token : String) (part : Parser)
  | rule (handle : Handle)

/-- The part of a sequence at an index. Parts in order are looked up by `some`. -/
def Parser.pick {α : Type} (lookup : Nat → Option Nat) (parts : List α) (i : Nat) : Option α :=
  (lookup i).bind (parts[·]?)

@[simp] theorem Parser.pick_some {α : Type} (parts : List α) (i : Nat) :
    pick some parts i = parts[i]? := rfl

theorem Parser.mem_of_pick {α : Type} {lookup : Nat → Option Nat} {parts : List α} {i : Nat} {p : α}
    (h : pick lookup parts i = some p) : p ∈ parts := by
  obtain ⟨j, -, hj⟩ := Option.bind_eq_some_iff.mp h
  exact List.mem_of_getElem? hj

mutual

/-- What a parser is called in faults. A sequence without a name of its own has that of its first
part. -/
def Parser.name : Parser → String
  | .terminal t => t.name
  | .leaf l => l.name
  | .choice name _ => name
  | .sequence _ (some label) _ _ _ _ => label
  | .sequence _ none _ _ lookup ps => (lookup 0).elim "" (nameAt ps)
  | .repetition _ p => p.name
  | .sentence p => p.name
  | .orEmpty _ p => p.name
  | .rule h => h.name

/-- What the parser at an index is called; nothing, if there is none. -/
def nameAt : List Parser → Nat → String
  | [], _ => ""
  | p :: _, 0 => p.name
  | _ :: ps, i + 1 => nameAt ps i

end

mutual

/-- The rules that a parser keeps alive. -/
def Parser.owned : Parser → List Nat
  | .terminal _ => []
  | .leaf _ => []
  | .choice _ ps => ownedAll ps
  | .sequence _ _ _ _ _ ps => ownedAll ps
  | .repetition _ p => p.owned
  | .sentence p => p.owned
  | .orEmpty _ p => p.owned
  | .rule h => if h.owns then [h.id] else []

def ownedAll : List Parser → List Nat
  | [] => []
  | p :: ps => p.owned ++ ownedAll ps

end

/-! ### Rules -/

/-- What is known of a rule. -/
inductive RuleState where
  | undefined
  | defined (p : Parser)
  | dropped

/-- A rule with its name. -/
structure Rule where
  name : String
  state : RuleState

/-- The rules of a grammar; handles hold their index. -/
structure Rules where
  entries : List Rule

namespace Rules

/-- No rule. -/
def empty : Rules := ⟨[]⟩

instance : Inhabited Rules := ⟨empty⟩

/-- A new rule without definition, and its index. -/
def declare (rules : Rules) (name : String) : Nat × Rules :=
  (rules.entries.length, ⟨rules.entries ++ [⟨name, .undefined⟩]⟩)

/-- What is known of the rule at an index; a rule that never was counts as dropped. -/
def state (rules : Rules) (id : Nat) : RuleState := ((rules.entries[id]?).map (·.state)).getD .dropped

/-- Puts a rule into a state. -/
def setState (rules : Rules) (id : Nat) (state : RuleState) : Rules :=
  ⟨rules.entries.modify id fun rule => { rule with state }⟩

/-- The rule at an index, unless it was dropped. -/
def alive? (rules : Rules) (id : Nat) : Option Rule :=
  match rules.entries[id]? with
  | some ⟨_, .dropped⟩ => Option.none
  | found => found

/-- Whether a rule has its definition. -/
def isDefined (rules : Rules) (id : Nat) : Bool :=
  match rules.state id with
  | .defined _ => true
  | _ => false

/-- The name of the rule at an index. -/
def nameOf (rules : Rules) (id : Nat) : String := ((rules.entries[id]?).map (·.name)).getD ""

/-- Gives a rule its definition; a rule is defined only once, and not after it was dropped. -/
def define (rules : Rules) (id : Nat) (p : Parser) : Except Fault Rules :=
  match rules.state id with
  | .undefined => .ok (rules.setState id (.defined p))
  | .defined _ => .error (.grammar (.redefined (rules.nameOf id)))
  | .dropped => .error (.grammar (.dropped (rules.nameOf id)))

/-- Drops a rule with its definition. -/
def drop (rules : Rules) (id : Nat) : Rules := rules.setState id .dropped

/-- The rules that the definition of a rule keeps alive. -/
def ownedBy (rules : Rules) (id : Nat) : List Nat :=
  match rules.state id with
  | .defined p => p.owned
  | _ => []

/-- Of the rules `alive`, those that are kept from outside or by the definition of one of them. -/
def keepOwned (rules : Rules) (kept alive : List Nat) : List Nat :=
  let owned := alive.flatMap rules.ownedBy
  alive.filter fun id => kept.contains id || owned.contains id

/-- The rules that stay alive when only `kept` are held from outside. Rules that keep each other
alive in a circle stay. -/
def survivors (rules : Rules) (kept : List Nat) : Nat → List Nat → List Nat
  | 0, alive => alive
  | fuel + 1, alive => survivors rules kept fuel (rules.keepOwned kept alive)

/-- Drops every rule that nothing keeps alive when only `kept` are held from outside. -/
def release (rules : Rules) (kept : List Nat) : Rules :=
  let ids := List.range rules.entries.length
  let alive := rules.survivors kept rules.entries.length ids
  (ids.filter fun id => !alive.contains id).foldl drop rules

end Rules

/-! ### Running -/

namespace Parser

/-- What a parser does. -/
def run (rules : Rules) : Nat → Parser → Run
  | 0, _ => fun _ _ _ => none
  | fuel + 1, p =>
    match p with
    | terminal t => fun _ r s => some (t.read r, s.countCall)
    | leaf l => fun d r s => some (l.answer d r s.countCall)
    | choice _ ps => Run.choice (ps.map (run rules fuel))
    | sequence key _ build accepts lookup parts =>
      Run.sequence fuel key p.name
        { part := fun i => (pick lookup parts i).map (run rules fuel)
          name := fun i => ((pick lookup parts i).map name).getD ""
          accepts, build }
    | repetition bounds q => Run.repetition fuel bounds (run rules fuel q)
    | sentence q => Run.sentence (run rules fuel q)
    | orEmpty token q => Run.orEmpty token (run rules fuel q)
    | rule h =>
      match rules.state h.id with
      | .defined q => run rules fuel q
      | .undefined => fun _ _ s => some (.failed (.grammar (.undefined h.name)), s)
      | .dropped => fun _ _ s => some (.failed (.grammar (.dropped h.name)), s)

end Parser

end Curtail
