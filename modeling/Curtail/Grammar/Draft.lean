/-
# Drafts of grammars

A draft describes a grammar by the names of its rules and of its shared parts.
Assembling it checks every part, gives each sequence a key and each rule an
index, and yields a grammar, or the first fault in the order of construction:
shared parts, definitions, root, and parts before what is made of them.

A part that is named in the draft and used twice is the same parser in both
places; parts that are written twice are two.

Key definitions: `Draft`, `Draft.Outline`, `Draft.assemble`.
-/
import Curtail.Grammar
import Curtail.Parse.Script
import Curtail.Pattern.Read

namespace Curtail

/-- A description of a parser. -/
inductive Draft where
  | terminal (t : Terminal)
  | word (word token : String) (value : Value)
  | nil (word : String)
  | pattern (token name written : String) (group : Nat)
  | leaf (l : Leaf)
  | scripted (name : String) (answers : List Answer) (repeats : Bool)
  /-- All parts in order. -/
  | sequence (label : Option String) (build : Builder) (parts : List Draft)
  /-- As many parts in order as match, at least one. -/
  | sequenceTry (label : Option String) (build : Builder) (parts : List Draft)
  /-- Parts in order, of which as many as `accepts` says make a match. A cyclic sequence starts over
  after its last part. -/
  | indexed (label : Option String) (build : Builder) (accepts : Nat → Bool) (cyclic : Bool)
      (parts : List Draft)
  | choice (name : String) (alternatives : List Draft)
  | sentence (part : Draft)
  | repetition (build : Builder) (part : Draft) (least : Nat) (most : Option Nat)
  /-- Items with separators between them, at least one item unless it may be empty. -/
  | separated (token : String) (item separator : Draft) (interpreter : Option Interpreter)
      (mayBeEmpty : Bool)
  /-- A handle to a rule that keeps it alive. -/
  | rule (name : String)
  /-- A handle to a rule that does not keep it alive. -/
  | reference (name : String)
  /-- A shared part. -/
  | shared (name : String)
  /-- A parser with rules of its own, whose names are not seen outside. -/
  | scoped (rules : List (String × Draft)) (root : Draft)

instance : Inhabited Draft := ⟨.terminal .empty⟩

namespace Draft

/-- At most one match of a part, its node kept as it is. -/
def optional (part : Draft) : Draft := .repetition (.select 0) part 0 (some 1)

/-- What was handed out so far, and the rules. -/
structure Workshop where
  nextNumber : Nat
  rules : Rules

/-- An assembly: changes the workshop, may end in a fault. -/
abbrev Assembly (α : Type) := Workshop → Except Fault (α × Workshop)

/-- What names mean. -/
structure Scope where
  rules : List (String × Nat)
  shared : List (String × Parser)

/-- A number not handed out before. -/
def freshNumber : Assembly Nat := fun w => .ok (w.nextNumber, { w with nextNumber := w.nextNumber + 1 })

/-- A sequence with a key of its own. -/
def assembleSequence (label : Option String) (build : Builder) (accepts : Nat → Bool)
    (lookup : Nat → Option Nat) (parts : List Parser) : Assembly Parser := fun w =>
  (freshNumber w).map fun (n, w) => (.sequence ⟨n⟩ label build accepts lookup parts, w)

/-- Parts in order, from `least` of them up to all. -/
def between (least most n : Nat) : Bool := decide (least ≤ n) && decide (n ≤ most)

/-- Which of `n` parts stands at an index: they stand in order, once or, in a cyclic sequence, over
and over. -/
def inTurn (cyclic : Bool) (n i : Nat) : Option Nat := if cyclic then some (i % n) else some i

/-- A sequence of the given parts, of which there must be one. -/
def assembleParts (label : Option String) (build : Builder) (least : Nat) (parts : List Parser) :
    Assembly Parser := fun w =>
  if parts.isEmpty then .error (.grammar .emptySequence)
  else assembleSequence label build (between least parts.length) some parts w

/-- A repetition, if its bounds do not cross. -/
def assembleRepetition (build : Builder) (part : Parser) (least : Nat) (most : Option Nat) :
    Except Fault Parser :=
  match most with
  | some most =>
    if most < least then .error (.grammar (.crossedBounds part.name most least))
    else .ok (.repetition ⟨least, some most, build⟩ part)
  | none => .ok (.repetition ⟨least, none, build⟩ part)

/-- Items with separators between them: an item, then any number of pairs of a separator and an
item. What holds the pairs together is flattened away. -/
def assembleSeparated (token : String) (item separator : Parser) (interpreter : Option Interpreter)
    (mayBeEmpty : Bool) : Assembly Parser := fun w =>
  match assembleSequence none (.group Builder.pairToken none) (between 2 2) some [separator, item] w with
  | .error f => .error f
  | .ok (pair, w) =>
    let tail := Parser.repetition ⟨0, none, .group Builder.tailToken none⟩ pair
    (assembleSequence none (.flatList token interpreter) (between 2 2) some [item, tail] w).map
      fun (list, w) => (if mayBeEmpty then .orEmpty token list else list, w)

/-- A terminal for a group of a written pattern. -/
def assemblePattern (token name written : String) (group : Nat) : Except Fault Parser :=
  match Pattern.anchored written with
  | .error .malformed => .error (.grammar (.badPattern written))
  | .error .tooLarge => .error (.grammar (.largePattern written Pattern.sizeLimit))
  | .ok p =>
    if p.groups < group then .error (.grammar (.noGroup written group))
    else .ok (.terminal (.pattern token name p group))

/-- A handle to the rule with the given name. -/
def assembleHandle (scope : Scope) (name : String) (owns : Bool) : Except Fault Parser :=
  match scope.rules.lookup name with
  | some id => .ok (.rule ⟨id, name, owns⟩)
  | none => .error (.grammar (.undefined name))

/-- One new rule for each name, in order of first mention. -/
def declareAll : List String → List (String × Nat) → Rules → List (String × Nat) × Rules
  | [], known, rules => (known, rules)
  | name :: names, known, rules =>
    if (known.lookup name).isSome then declareAll names known rules
    else
      let (id, rules) := rules.declare name
      declareAll names (known ++ [(name, id)]) rules

/-- Gives the rule `name` its definition. -/
def defineRule (scope : Scope) (name : String) (p : Parser) (w : Workshop) : Except Fault Workshop :=
  match scope.rules.lookup name with
  | none => .error (.grammar (.undefined name))
  | some id => (w.rules.define id p).map fun rules => { w with rules }

mutual

/-- The parser that a draft describes. -/
def parser (scope : Scope) : Draft → Assembly Parser
  | .terminal t => fun w => .ok (.terminal t, w)
  | .word text token value => fun w =>
    if text.isEmpty then .error (.grammar .emptyWord) else .ok (.terminal (.word text token value), w)
  | .nil text => fun w =>
    if text.isEmpty then .error (.grammar .emptyNil) else .ok (.terminal (.nil text), w)
  | .pattern token name written group => fun w => (assemblePattern token name written group).map (·, w)
  | .leaf l => fun w => .ok (.leaf l, w)
  | .scripted name answers repeats => fun w =>
    (freshNumber w).map fun (number, w) => (.leaf (Script.leaf ⟨number, name, answers, repeats⟩), w)
  | .sequence label build parts => fun w =>
    match parsers scope parts w with
    | .error f => .error f
    | .ok (ps, w) => assembleParts label build ps.length ps w
  | .sequenceTry label build parts => fun w =>
    match parsers scope parts w with
    | .error f => .error f
    | .ok (ps, w) => assembleParts label build 1 ps w
  | .indexed label build accepts cyclic parts => fun w =>
    match parsers scope parts w with
    | .error f => .error f
    | .ok (ps, w) => assembleSequence label build accepts (inTurn cyclic ps.length) ps w
  | .choice name alternatives => fun w =>
    match parsers scope alternatives w with
    | .error f => .error f
    | .ok (ps, w) =>
      if ps.isEmpty then .error (.grammar (.emptyChoice name)) else .ok (.choice name ps, w)
  | .sentence part => fun w => (part.parser scope w).map fun (p, w) => (.sentence p, w)
  | .repetition build part least most => fun w =>
    match part.parser scope w with
    | .error f => .error f
    | .ok (p, w) => (assembleRepetition build p least most).map (·, w)
  | .separated token item separator interpreter mayBeEmpty => fun w =>
    match item.parser scope w with
    | .error f => .error f
    | .ok (item, w) =>
      match separator.parser scope w with
      | .error f => .error f
      | .ok (separator, w) => assembleSeparated token item separator interpreter mayBeEmpty w
  | .rule name => fun w => (assembleHandle scope name true).map (·, w)
  | .reference name => fun w => (assembleHandle scope name false).map (·, w)
  | .shared name => fun w =>
    match scope.shared.lookup name with
    | some p => .ok (p, w)
    | none => .error (.grammar (.undefined name))
  | .scoped rules root => fun w =>
    let (known, table) := declareAll (rules.map Prod.fst) [] w.rules
    match definitions ⟨known, []⟩ rules { w with rules := table } with
    | .error f => .error f
    | .ok w => root.parser ⟨known, []⟩ w

def parsers (scope : Scope) : List Draft → Assembly (List Parser)
  | [] => fun w => .ok ([], w)
  | d :: ds => fun w =>
    match d.parser scope w with
    | .error f => .error f
    | .ok (p, w) => (parsers scope ds w).map fun (ps, w) => (p :: ps, w)

def definitions (scope : Scope) : List (String × Draft) → Workshop → Except Fault Workshop
  | [], w => .ok w
  | (name, d) :: rest, w =>
    match d.parser scope w with
    | .error f => .error f
    | .ok (p, w) =>
      match defineRule scope name p w with
      | .error f => .error f
      | .ok w => definitions scope rest w

end

/-- A description of a grammar. `released` names rules that only handles in the grammar keep
alive. -/
structure Outline where
  rules : List (String × Option Draft)
  shared : List (String × Draft)
  root : Draft
  released : List String

/-- Assembles shared parts in order; later ones may use earlier ones. -/
def assembleShared (scope : Scope) : List (String × Draft) → Workshop → Except Fault (Scope × Workshop)
  | [], w => .ok (scope, w)
  | (name, d) :: rest, w =>
    match d.parser scope w with
    | .error f => .error f
    | .ok (p, w) => assembleShared { scope with shared := (name, p) :: scope.shared } rest w

/-- The rules that are held from outside a grammar or by one of its parsers. -/
def keptRules (outline : Outline) (scope : Scope) (root : Parser) : List Nat :=
  (scope.rules.filter fun (name, _) => !outline.released.contains name).map Prod.snd ++
    root.owned ++ scope.shared.flatMap fun (_, p) => p.owned

/-- The grammar that an outline describes. -/
def assemble (outline : Outline) : Except Fault Grammar :=
  let (known, table) := declareAll (outline.rules.map Prod.fst) [] .empty
  match assembleShared ⟨known, []⟩ outline.shared ⟨0, table⟩ with
  | .error f => .error f
  | .ok (scope, w) =>
    match definitions scope (outline.rules.filterMap fun (name, d?) => d?.map (name, ·)) w with
    | .error f => .error f
    | .ok w =>
      (outline.root.parser scope w).map fun (root, w) =>
        ⟨w.rules.release (keptRules outline scope root), root⟩

end Draft

end Curtail
