/-
# Settings and positions from JSON

How a text is to be read can be given in a JSON document, and so can a
position. Both are objects, or arrays of their fields in order. Keys that mean
nothing are passed over, a key must not be repeated.

Key definitions: `ReadSettings`, `ReadSettings.ofJson?`, `Position.ofJson?`.
-/
import Curtail.Json.Document
import Curtail.Text.Position

namespace Curtail

/-- How a text is read. -/
structure ReadSettings where
  skipsBlanks : Bool
deriving DecidableEq, Repr

namespace ReadSettings

/-- Blanks are skipped unless something else is said. -/
def standard : ReadSettings := ⟨true⟩

/-- The settings as a JSON object. -/
def jsonText (settings : ReadSettings) : String :=
  "\x7b\"ignore_whitespace\":" ++ (if settings.skipsBlanks then "true" else "false") ++ "\x7d"

/-- The settings in a JSON document; a field that is missing has its standard value. -/
def ofJson? (text : String) : Option ReadSettings := do
  let document ← Json.Document.ofText? text
  match ← document.fields? ["ignore_whitespace"] with
  | [none] => return standard
  | [some value] => return ⟨← value.asBool?⟩
  | _ => none

end ReadSettings

/-- The position in a JSON document; every field must be there. -/
def Position.ofJson? (text : String) : Option Position := do
  let document ← Json.Document.ofText? text
  match ← document.fields? ["offset", "line", "column"] with
  | [some offset, some line, some column] =>
    return ⟨← offset.asWord?, ← line.asWord?, ← column.asWord?⟩
  | _ => none

end Curtail
