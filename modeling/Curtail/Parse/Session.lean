/-
# Sessions

What is threaded through all calls of a parse: the memo, the journal of what
happened, and for leaves that answer from a script, how many answers each has
given. The journal keeps the newest event first.

Key definitions: `Event`, `Event.line`, `Session`.
-/
import Curtail.Parse.Memo
import Curtail.Parse.Tally

namespace Curtail

/-- Something worth noting during a parse. -/
inductive Event where
  /-- A parse of the whole input starts. -/
  | starting (name : String) (place : Position)
  /-- A sequence refused to recurse further. -/
  | refusal (id : Nat) (name : String) (place : Position)
  /-- The parse is over, and these sequences had refused on the way. -/
  | refusals (ids : List Nat)
  /-- The whole input matched. -/
  | success (name : String) (calls : Nat)
deriving DecidableEq, Repr

/-- An event as a line of a log, its level first. -/
def Event.line : Event → String
  | starting name place => s!"TRACE parsing {name} from {place.text}"
  | refusal id name place => s!"TRACE curtailed parser {id} ({name}) at {place.text}"
  | refusals ids =>
    "TRACE curtailed parsers: [" ++ String.intercalate ", " (ids.map Nat.repr) ++ "]"
  | success name calls => s!"DEBUG {name} matched after {calls} parser calls"

/-- What is threaded through all calls of a parse. -/
structure Session where
  memo : Memo
  journal : List Event
  served : Tally

namespace Session

/-- A session in which nothing has happened. -/
def fresh : Session := ⟨.fresh, [], .zero⟩

instance : Inhabited Session := ⟨fresh⟩

/-- One more call. -/
def countCall (s : Session) : Session := { s with memo := s.memo.countCall }

/-- Notes an event. -/
def note (s : Session) (e : Event) : Session := { s with journal := e :: s.journal }

/-- The identity of a key. -/
def register (s : Session) (key : Key) : Nat × Session :=
  let (id, memo) := s.memo.register key
  (id, { s with memo })

/-- Joins new matches with those known and remembers them. -/
def grow (s : Session) (id offset : Nat) (found : Matches) : Matches × Session :=
  let (all, memo) := s.memo.grow id offset found
  (all, { s with memo })

/-- The session with all matches forgotten. -/
def forget (s : Session) : Session := { s with memo := s.memo.forget }

/-- The session with a new memo. -/
def reset (s : Session) : Session := { s with memo := s.memo.reset }

/-- The events in the order in which they happened. -/
def events (s : Session) : List Event := s.journal.reverse

end Session

end Curtail
