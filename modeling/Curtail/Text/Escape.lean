/-
# Text in quotes

How a text or a character is shown inside quotes for a reader who debugs a
grammar: the quote and the backslash are escaped, the usual control
characters have their letters, and whatever cannot be seen on its own is
given by its code point in hexadecimal.

Key definitions: `Text.quoted`, `Text.quotedChar`.
-/
import Curtail.Text.Class

namespace Curtail
namespace Text

/-- A code point as `\u` and lower-case hexadecimal digits in braces. -/
def codePointEscape (c : Char) : String :=
  "\\u\x7b" ++ String.ofList (Nat.toDigits 16 c.toNat) ++ "\x7d"

/-- One character between quotes of the kind `mark`. -/
def escapeIn (mark : Char) (c : Char) : String :=
  if c == '\x00' then "\\0"
  else if c == '\t' then "\\t"
  else if c == '\n' then "\\n"
  else if c == '\r' then "\\r"
  else if c == '\\' || c == mark then "\\" ++ c.toString
  else if extendsGrapheme c || !isPrintable c then codePointEscape c
  else c.toString

/-- A text between double quotes. -/
def quoted (s : String) : String := "\"" ++ String.join (s.toList.map (escapeIn '"')) ++ "\""

/-- A character between single quotes. -/
def quotedChar (c : Char) : String := "'" ++ escapeIn '\'' c ++ "'"

end Text
end Curtail
