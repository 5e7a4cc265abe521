/-
# Reading patterns

The written form of patterns: literals, `.`, brackets, escapes, the places
`^ $ \A \z \b \B`, groups with or without a number or a name, alternatives,
repetitions, and the flags `i`, `m`, `s` and `U`. Everything else is no
pattern, and neither is what is nested too deep: groups, repetitions, brackets,
and several parts in a row or side by side, are a level each.

Key definitions: `Pattern.ofText`, `Pattern.anchored`, `Pattern.Refusal`.
-/
import Curtail.Pattern.Bracket
import Curtail.Pattern.Search
import Curtail.Pattern.Size

namespace Curtail
namespace Pattern

/-- The flags in force. -/
structure Flags where
  anyCase : Bool
  manyLines : Bool
  dotAll : Bool
  reluctant : Bool

/-- What is left to read, the flags, the number of groups, the names of groups, and how many
parentheses are open. -/
structure Reading where
  rest : List Char
  flags : Flags
  groups : Nat
  names : List String
  opened : Nat

/-- A tree, and how deep its written form is nested. -/
structure Part where
  tree : Tree
  depth : Nat

/-- The most levels that may be nested. -/
def depthLimit : Nat := 250

/-- A character of the pattern that stands for itself. -/
def literal (flags : Flags) (c : Char) : Tree := .one (foldIf flags.anyCase (.single c))

/-! ### Flags and names -/

def Flags.set? (flags : Flags) (letter : Char) (on : Bool) : Option Flags :=
  match letter with
  | 'i' => some { flags with anyCase := on }
  | 'm' => some { flags with manyLines := on }
  | 's' => some { flags with dotAll := on }
  | 'U' => some { flags with reluctant := on }
  | _ => none

/-- Letters of flags up to a colon or a closing parenthesis; those after a hyphen are taken away. No
letter may come twice, and after the hyphen there must be one. -/
def readFlags? (flags : Flags) (seen : List Char) (taking : Bool) :
    List Char → Option (Flags × List Char)
  | [] => none
  | c :: cs =>
    if c == ':' || c == ')' then
      if seen.head? = some '-' then none else some (flags, c :: cs)
    else if seen.contains c then none
    else if c == '-' then readFlags? flags (c :: seen) true cs
    else
      match flags.set? c (!taking) with
      | none => none
      | some flags => readFlags? flags (c :: seen) taking cs

/-- Whether a text can name a group. -/
def isGroupName : List Char → Bool
  | [] => false
  | c :: cs =>
    (c == '_' || Text.isAlphabetic c) &&
      cs.all fun c => Text.isIdentifier c || c == '.' || c == '[' || c == ']'

/-- The name of a group up to its closing bracket, and the rest. -/
def readName? (names : List String) (cs : List Char) : Option (String × List Char) :=
  let name := cs.takeWhile (· != '>')
  match cs.dropWhile (· != '>') with
  | [] => none
  | _ :: rest =>
    let text := String.ofList name
    if isGroupName name && !names.contains text then some (text, rest) else none

/-! ### Repetitions -/

/-- A number between blanks, up to 32 bits wide. -/
def readCount? (cs : List Char) : Option (Nat × List Char) :=
  let cs := cs.dropWhile Text.isBlank
  let digits := cs.takeWhile Char.isDigit
  let n := Decimal.natOfDigits 10 digits
  if digits.isEmpty || Nat.pow 2 32 ≤ n then none
  else some (n, (cs.dropWhile Char.isDigit).dropWhile Text.isBlank)

/-- The bounds of a repetition after its opening brace, and the rest. -/
def readBounds? (cs : List Char) : Option (Nat × Option Nat × List Char) :=
  match readCount? cs with
  | none => none
  | some (n, '\x7d' :: rest) => some (n, some n, rest)
  | some (n, ',' :: '\x7d' :: rest) => some (n, none, rest)
  | some (n, ',' :: cs) =>
    match readCount? cs with
    | some (m, '\x7d' :: rest) => if n ≤ m then some (n, some m, rest) else none
    | _ => none
  | some _ => none

/-- The bounds of the repetition that follows, if one does. -/
def readRepetition? : List Char → Option (Option (Nat × Option Nat × List Char))
  | '*' :: cs => some (some (0, none, cs))
  | '+' :: cs => some (some (1, none, cs))
  | '?' :: cs => some (some (0, some 1, cs))
  | '\x7b' :: cs => (readBounds? cs).map some
  | _ => some none

/-- A part with all repetitions that follow it. -/
def readRepetitions? : Nat → Part → Reading → Option (Part × Reading)
  | 0, _, _ => none
  | fuel + 1, p, st =>
    match readRepetition? st.rest with
    | none => none
    | some none => some (p, st)
    | some (some (least, most, rest)) =>
      let marked := rest.head? == some '?'
      let greedy := marked == st.flags.reluctant
      readRepetitions? fuel ⟨.repeated p.tree least most greedy, p.depth + 1⟩
        { st with rest := if marked then rest.drop 1 else rest }

/-! ### Trees -/

/-- What stands at a place of a pattern: a part, or flags for what follows. -/
inductive Piece where
  | part (p : Part)
  | flags

/-- A single character, place or escape that is no group and no bracket. -/
def readSimple? (st : Reading) : Option (Tree × Reading) :=
  let flags := st.flags
  match st.rest with
  | [] => none
  | '\\' :: 'A' :: cs => some (.anchor .textStart, { st with rest := cs })
  | '\\' :: 'z' :: cs => some (.anchor .textEnd, { st with rest := cs })
  | '\\' :: 'b' :: cs => some (.anchor .wordEdge, { st with rest := cs })
  | '\\' :: 'B' :: cs => some (.anchor .noWordEdge, { st with rest := cs })
  | '\\' :: cs =>
    (readEscape? cs).map fun (item, cs) =>
      match item with
      | .char c => (literal flags c, { st with rest := cs })
      | .set s => (.one s, { st with rest := cs })
  | '.' :: cs => some (.one (if flags.dotAll then .all else .inLine), { st with rest := cs })
  | '^' :: cs =>
    some (.anchor (if flags.manyLines then .lineStart else .textStart), { st with rest := cs })
  | '$' :: cs => some (.anchor (if flags.manyLines then .lineEnd else .textEnd), { st with rest := cs })
  | c :: cs =>
    if c == '*' || c == '+' || c == '?' || c == '\x7b' then none
    else some (literal flags c, { st with rest := cs })

/-- How deep a list of parts is nested: several of them are one level. -/
def depthOf (parts : List Part) : Nat :=
  let deepest := (parts.map (·.depth)).foldl max 0
  if parts.length < 2 then deepest else deepest + 1

mutual

/-- Alternatives up to the end or a closing parenthesis. -/
def readAlternatives? : Nat → Reading → Option (List Part × Reading)
  | 0, _ => none
  | fuel + 1, st =>
    match readChain? fuel st with
    | none => none
    | some (parts, st) =>
      let p : Part := ⟨.inOrder (parts.map (·.tree)), depthOf parts⟩
      match st.rest with
      | '|' :: cs =>
        match readAlternatives? fuel { st with rest := cs } with
        | none => none
        | some (ps, st) => some (p :: ps, st)
      | _ => some ([p], st)

/-- Pieces one after the other, up to the end, a bar or a closing parenthesis; flags count as a
part that is nothing. -/
def readChain? : Nat → Reading → Option (List Part × Reading)
  | 0, _ => none
  | fuel + 1, st =>
    if st.rest.isEmpty || st.rest.head? = some '|' || st.rest.head? = some ')' then some ([], st)
    else
      match readPiece? fuel st with
      | none => none
      | some (piece, st) =>
        let repeated := match piece with
          | .flags => some (⟨.nothing, 0⟩, st)
          | .part p => readRepetitions? (fuel + 1) p st
        match repeated with
        | none => none
        | some (p, st) =>
          match readChain? fuel st with
          | none => none
          | some (ps, st) => some (p :: ps, st)

/-- One piece, without repetition. -/
def readPiece? : Nat → Reading → Option (Piece × Reading)
  | 0, _ => none
  | fuel + 1, st =>
    match st.rest with
    | '(' :: '?' :: 'P' :: '<' :: cs => readNamedGroup? fuel { st with rest := cs }
    | '(' :: '?' :: '<' :: cs => readNamedGroup? fuel { st with rest := cs }
    | '(' :: '?' :: cs =>
      match readFlags? st.flags [] false cs with
      | some (flags, ':' :: cs) =>
        match readClosed? fuel { st with rest := cs, flags } with
        | none => none
        | some (p, inner) => some (.part p, { inner with flags := st.flags })
      | some (flags, _ :: rest) =>
        if cs.head? = some ')' then none else some (.flags, { st with rest, flags })
      | _ => none
    | '(' :: cs => readNumberedGroup? fuel { st with rest := cs }
    | '[' :: cs =>
      (readBracket? st.flags.anyCase (2 * cs.length + 2) cs).map fun (s, depth, cs) =>
        (.part ⟨.one s, depth⟩, { st with rest := cs })
    | _ => (readSimple? st).map fun (p, st) => (.part ⟨p, 0⟩, st)

/-- A group with a name, after the bracket that opens the name. -/
def readNamedGroup? : Nat → Reading → Option (Piece × Reading)
  | 0, _ => none
  | fuel + 1, st =>
    match readName? st.names st.rest with
    | none => none
    | some (name, cs) => readNumberedGroup? fuel { st with rest := cs, names := name :: st.names }

/-- A group with a number, after its opening parenthesis. -/
def readNumberedGroup? : Nat → Reading → Option (Piece × Reading)
  | 0, _ => none
  | fuel + 1, st =>
    let index := st.groups + 1
    match readClosed? fuel { st with groups := index } with
    | none => none
    | some (p, inner) =>
      some (.part ⟨.group index p.tree, p.depth⟩, { inner with flags := st.flags })

/-- Alternatives in parentheses, after the opening one. -/
def readClosed? : Nat → Reading → Option (Part × Reading)
  | 0, _ => none
  | fuel + 1, st =>
    if depthLimit ≤ st.opened then none
    else
      match readAlternatives? fuel { st with opened := st.opened + 1 } with
      | some (ps, inner) =>
        match inner.rest with
        | ')' :: cs =>
          some (⟨.firstOf (ps.map (·.tree)), depthOf ps + 1⟩, { inner with rest := cs, opened := st.opened })
        | _ => none
      | none => none

end

/-- Why a text is refused as a pattern. -/
inductive Refusal where
  /-- It is not the written form of a pattern. -/
  | malformed
  /-- It takes too much memory. -/
  | tooLarge
deriving DecidableEq, Repr

/-- The pattern with the given written form. -/
def ofChars (cs : List Char) : Except Refusal Pattern :=
  match readAlternatives? (8 * cs.length + 8) ⟨cs, ⟨false, false, false, false⟩, 0, [], 0⟩ with
  | none => .error .malformed
  | some (ps, st) =>
    let p := Tree.firstOf (ps.map (·.tree))
    if !st.rest.isEmpty || depthLimit < depthOf ps then .error .malformed
    else if p.fits then .ok (ofTree p)
    else .error .tooLarge

/-- The pattern with the given written form. -/
def ofText (text : String) : Except Refusal Pattern := ofChars text.toList

/-- The pattern that matches where `text` does, but only at the start of a text. The written form
is put into a group, so a stray parenthesis in it may close that group. -/
def anchored (text : String) : Except Refusal Pattern := ofText ("\\A(?:" ++ text ++ ")")

end Pattern
end Curtail
