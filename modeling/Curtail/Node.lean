/-
# Syntax trees

Parsers build trees of nodes. A leaf is a token with its literal value. A
branch holds its children and, if it has one, the interpreter that makes a
value of them. Nothing is evaluated until a value is asked for, and nothing is
kept afterwards.

An interpreter sees its children as `Child`ren: their tokens and places at
once, their values when it asks. A branch without interpreter stands for the
list of its children's values.

Key definitions: `Context`, `Child`, `Interpreter`, `Node`, `Node.value`,
`Node.beq`.
-/
import Curtail.Fault
import Curtail.Value

namespace Curtail

/-- What the caller of an evaluation hands to every interpreter. -/
inductive Context where
  | none
  | int (n : Int64)
  | text (s : String)
deriving DecidableEq

/-- A child as its parent's interpreter sees it. -/
structure Child where
  token : String
  start : Position
  stop : Position
  value : Context → Except Fault Value

/-- Makes a value of the children of a branch. -/
abbrev Interpreter := Context → List Child → Except Fault Value

/-- A node of a syntax tree; `stop` is the position right after it. -/
inductive Node where
  | leaf (token : String) (value : Value) (start stop : Position)
  | branch (token : String) (children : List Node) (interpreter : Option Interpreter)
      (start stop : Position)

instance : Inhabited Node := ⟨.leaf "" .nil .start .start⟩

namespace Node

def token : Node → String
  | leaf t _ _ _ => t
  | branch t _ _ _ _ => t

/-- Where the node starts. -/
def start : Node → Position
  | leaf _ _ p _ => p
  | branch _ _ _ p _ => p

/-- The position right after the node. -/
def stop : Node → Position
  | leaf _ _ _ p => p
  | branch _ _ _ _ p => p

def children : Node → List Node
  | leaf _ _ _ _ => []
  | branch _ cs _ _ _ => cs

def isBranch : Node → Bool
  | leaf _ _ _ _ => false
  | branch _ _ _ _ _ => true

/-- A branch that spans its children; without children it stands at the start of the text. -/
def group (token : String) (children : List Node) (interpreter : Option Interpreter) : Node :=
  let first := (children.head?.map start).getD .start
  .branch token children interpreter first ((children.getLast?.map stop).getD first)

/-- A branch without children at a position. -/
def emptyGroup (token : String) (place : Position) (interpreter : Option Interpreter) : Node :=
  .branch token [] interpreter place place

/-- The values of some children, or the first fault among them. -/
def valuesOf (ctx : Context) : List Child → Except Fault (List Value)
  | [] => .ok []
  | c :: cs =>
    match c.value ctx with
    | .error f => .error f
    | .ok v =>
      match valuesOf ctx cs with
      | .error f => .error f
      | .ok vs => .ok (v :: vs)

/-- What a branch with these children stands for. -/
def interpret (interpreter : Option Interpreter) (ctx : Context) (children : List Child) :
    Except Fault Value :=
  match interpreter with
  | some f => f ctx children
  | none => (valuesOf ctx children).map .list

mutual

/-- The value of a node. -/
def value : Node → Context → Except Fault Value
  | leaf _ v _ _ => fun _ => .ok v
  | branch _ cs i _ _ => fun ctx => interpret i ctx (views cs)

/-- Nodes as their parent's interpreter sees them. -/
def views : List Node → List Child
  | [] => []
  | n :: ns => ⟨n.token, n.start, n.stop, n.value⟩ :: views ns

end

/-- Whether two evaluations of a node give equal results. What they give are copies of one value. -/
def evaluatesAlike (n : Node) (ctx : Context) : Bool :=
  match n.value ctx with
  | .ok v => v.equalsCopy
  | .error _ => true

mutual

/-- Equality of nodes. Interpreters are functions; only whether there is one is compared. -/
def beq : Node → Node → Bool
  | leaf t v p q, leaf t' v' p' q' => t == t' && v == v' && p == p' && q == q'
  | branch t cs i p q, branch t' cs' i' p' q' =>
    t == t' && beqAll cs cs' && i.isSome == i'.isSome && p == p' && q == q'
  | _, _ => false

def beqAll : List Node → List Node → Bool
  | [], [] => true
  | a :: as, b :: bs => beq a b && beqAll as bs
  | _, _ => false

end

instance : BEq Node := ⟨beq⟩

end Node

end Curtail
