/-
# Values as text

Three ways to write a value: for people (`plainText`), for people who debug a
grammar (`debugText`), and as JSON on one line or indented. JSON has no
characters, so a character is written as a text of its own.

Key definitions: `Value.plainText`, `Value.debugText`, `Value.jsonText`,
`JsonStyle`.
-/
import Curtail.Decimal.Layout
import Curtail.Text.Escape
import Curtail.Value

namespace Curtail

/-- How a JSON text is broken into lines: what is written at the start of a line at a depth, and
between a key and its value. -/
structure JsonStyle where
  newline : Nat → String
  colon : String

namespace JsonStyle

/-- Everything on one line, without a blank. -/
def compact : JsonStyle := ⟨fun _ => "", ":"⟩

/-- Every item on a line of its own, indented by two blanks a level. -/
def pretty : JsonStyle := ⟨fun depth => "\n" ++ String.ofList (List.replicate (2 * depth) ' '), ": "⟩

/-- Items between brackets; empty brackets stay together. -/
def wrap (style : JsonStyle) (depth : Nat) (opening closing : String) (items : List String) : String :=
  match items with
  | [] => opening ++ closing
  | _ =>
    opening ++ style.newline (depth + 1) ++
      String.intercalate ("," ++ style.newline (depth + 1)) items ++ style.newline depth ++ closing

end JsonStyle

namespace Text

/-- A number below 256 as two lower-case hexadecimal digits. -/
def twoHexDigits (n : Nat) : String :=
  String.ofList ((if n < 16 then ['0'] else []) ++ Nat.toDigits 16 n)

/-- A character inside a JSON text. Only quotes, backslashes and control characters are escaped. -/
def jsonEscape (c : Char) : String :=
  if c == '"' then "\\\""
  else if c == '\\' then "\\\\"
  else if c == '\x08' then "\\b"
  else if c == '\x0c' then "\\f"
  else if c == '\n' then "\\n"
  else if c == '\r' then "\\r"
  else if c == '\t' then "\\t"
  else if c.toNat < 0x20 then "\\u00" ++ twoHexDigits c.toNat
  else c.toString

/-- A text as JSON. -/
def jsonQuoted (s : String) : String := "\"" ++ String.join (s.toList.map jsonEscape) ++ "\""

end Text

namespace Value

mutual

/-- A value for people to read: texts are bare, items are separated by blanks. -/
def plainText : Value → String
  | nil => "nil"
  | bool b => if b then "true" else "false"
  | int n => toString n.toInt
  | float x => Decimal.Layout.plain.write x
  | char c => c.toString
  | text s => s
  | list items => "[" ++ String.intercalate " " (plainTexts items) ++ "]"
  | map entries => "map[" ++ String.intercalate " " (plainEntries entries) ++ "]"

def plainTexts : List Value → List String
  | [] => []
  | v :: vs => plainText v :: plainTexts vs

def plainEntries : List (String × Value) → List String
  | [] => []
  | (k, v) :: rest => (k ++ ":" ++ plainText v) :: plainEntries rest

end

mutual

/-- A value with its kind named and its texts quoted. -/
def debugText : Value → String
  | nil => "Nil"
  | bool b => if b then "Bool(true)" else "Bool(false)"
  | int n => "Int(" ++ toString n.toInt ++ ")"
  | float x => "Float(" ++ Decimal.Layout.debug.write x ++ ")"
  | char c => "Char(" ++ Text.quotedChar c ++ ")"
  | text s => "String(" ++ Text.quoted s ++ ")"
  | list items => "List([" ++ String.intercalate ", " (debugTexts items) ++ "])"
  | map entries => "Map(\x7b" ++ String.intercalate ", " (debugEntries entries) ++ "\x7d)"

def debugTexts : List Value → List String
  | [] => []
  | v :: vs => debugText v :: debugTexts vs

def debugEntries : List (String × Value) → List String
  | [] => []
  | (k, v) :: rest => (Text.quoted k ++ ": " ++ debugText v) :: debugEntries rest

end

mutual

/-- A value as JSON, `depth` levels inside the document. -/
def jsonAt (style : JsonStyle) (depth : Nat) : Value → String
  | nil => "null"
  | bool b => if b then "true" else "false"
  | int n => toString n.toInt
  | float x => Decimal.Layout.json.write x
  | char c => Text.jsonQuoted c.toString
  | text s => Text.jsonQuoted s
  | list items => style.wrap depth "[" "]" (jsonItems style (depth + 1) items)
  | map entries => style.wrap depth "\x7b" "\x7d" (jsonEntries style (depth + 1) entries)

def jsonItems (style : JsonStyle) (depth : Nat) : List Value → List String
  | [] => []
  | v :: vs => jsonAt style depth v :: jsonItems style depth vs

def jsonEntries (style : JsonStyle) (depth : Nat) : List (String × Value) → List String
  | [] => []
  | (k, v) :: rest =>
    (Text.jsonQuoted k ++ style.colon ++ jsonAt style depth v) :: jsonEntries style depth rest

end

/-- A value as a JSON document. -/
def jsonText (style : JsonStyle) (v : Value) : String := jsonAt style 0 v

end Value

end Curtail
