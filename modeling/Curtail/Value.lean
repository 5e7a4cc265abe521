/-
# Values

What the nodes of a syntax tree evaluate to. A map keeps its entries in
ascending order of their keys, one entry a key; `Value.ofEntries` builds it
from any list of entries, and the last entry of a key is kept.

Two numbers with a fraction are equal as numbers: `0.0` equals `-0.0`, and
what is no number equals nothing, not even itself. A copy of a value shares its
maps with it, and what is shared is equal, whatever is in it.

Key definitions: `Value`, `Value.ofEntries`, `Value.beq`, `Value.equalsCopy`.
Key theorems: `Value.keys_insertEntry`.
-/

namespace Curtail

/-- A value: a literal of a token, or what an interpreter made of its children. -/
inductive Value where
  | nil
  | bool (b : Bool)
  | int (n : Int64)
  | float (x : Float)
  | char (c : Char)
  | text (s : String)
  | list (items : List Value)
  | map (entries : List (String × Value))
deriving Inhabited

namespace Value

/-- Puts an entry where its key belongs; an entry with that key is replaced. -/
def insertEntry (key : String) (value : Value) :
    List (String × Value) → List (String × Value)
  | [] => [(key, value)]
  | (k, v) :: rest =>
    if key < k then (key, value) :: (k, v) :: rest
    else if key = k then (key, value) :: rest
    else (k, v) :: insertEntry key value rest

/-- The map with the given entries; of two with one key the last is kept. -/
def ofEntries (entries : List (String × Value)) : Value :=
  .map (entries.foldl (fun m (k, v) => insertEntry k v m) [])

/-- The keys after an insertion are those before it and the new one. -/
theorem keys_insertEntry (key k : String) (value : Value) (entries : List (String × Value)) :
    k ∈ (insertEntry key value entries).map Prod.fst ↔ k = key ∨ k ∈ entries.map Prod.fst := by
  induction entries with
  | nil => simp [insertEntry]
  | cons e rest ih =>
    obtain ⟨k', v'⟩ := e
    unfold insertEntry
    split
    · simp
    · split
      · rename_i h; subst h; simp
      · simp only [List.map_cons, List.mem_cons, ih]
        grind

/-- The name of a value's kind. -/
def kind : Value → String
  | nil => "Nil"
  | bool _ => "Bool"
  | int _ => "Int"
  | float _ => "Float"
  | char _ => "Char"
  | text _ => "String"
  | list _ => "List"
  | map _ => "Map"

def isNil : Value → Bool
  | nil => true
  | _ => false

def asInt? : Value → Option Int64
  | int n => some n
  | _ => none

/-- A number with a fraction; an integer counts as one. -/
def asFloat? : Value → Option Float
  | float x => some x
  | int n => some n.toFloat
  | _ => none

def asBool? : Value → Option Bool
  | bool b => some b
  | _ => none

def asText? : Value → Option String
  | text s => some s
  | _ => none

def asList? : Value → Option (List Value)
  | list items => some items
  | _ => none

mutual

/-- Equality of values; numbers with a fraction are compared as numbers. -/
def beq : Value → Value → Bool
  | nil, nil => true
  | bool a, bool b => a == b
  | int a, int b => a == b
  | float a, float b => a == b
  | char a, char b => a == b
  | text a, text b => a == b
  | list a, list b => beqItems a b
  | map a, map b => beqEntries a b
  | _, _ => false

def beqItems : List Value → List Value → Bool
  | [], [] => true
  | a :: as, b :: bs => beq a b && beqItems as bs
  | _, _ => false

def beqEntries : List (String × Value) → List (String × Value) → Bool
  | [], [] => true
  | (j, a) :: as, (k, b) :: bs => j == k && beq a b && beqEntries as bs
  | _, _ => false

end

instance : BEq Value := ⟨beq⟩

mutual

/-- Whether a value equals a copy of it: outside of maps there is no float that is no number. -/
def equalsCopy : Value → Bool
  | float x => x == x
  | list items => allEqualCopies items
  | _ => true

def allEqualCopies : List Value → Bool
  | [] => true
  | v :: vs => equalsCopy v && allEqualCopies vs

end

end Value

end Curtail
