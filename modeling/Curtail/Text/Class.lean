/-
# Character classes

The classes a grammar speaks about. Blanks separate tokens; identifier
characters decide where a word may end; word characters are what `\w` and
`\b` of a pattern mean. Identifier and word characters differ on purpose: `²`
is an identifier character but no word character, a combining mark is a word
character that need not be an identifier character, and the latest letters of
Unicode are no word characters yet.

Key definitions: `Text.isBlank`, `Text.isIdentifier`, `Text.isWord`,
`Text.isPrintable`.
-/
import Curtail.Text.Class.Letter
import Curtail.Text.Class.Mark
import Curtail.Text.Class.Number
import Curtail.Text.Class.Printable
import Curtail.Text.Class.Recent

namespace Curtail
namespace Text

/-- The code points with the property White_Space. -/
def whiteSpace : Ranges :=
  [(0x9, 0xD), (0x20, 0x20), (0x85, 0x85), (0xA0, 0xA0), (0x1680, 0x1680), (0x2000, 0x200A),
   (0x2028, 0x2029), (0x202F, 0x202F), (0x205F, 0x205F), (0x3000, 0x3000)]

/-- A blank: white space in the sense of Unicode. -/
def isBlank (c : Char) : Bool := whiteSpace.has c.toNat

/-- A decimal digit of any script. -/
def isDecimalDigit (c : Char) : Bool := decimalDigit.has c.toNat

/-- A letter of any script. -/
def isAlphabetic (c : Char) : Bool := alphabetic.has c.toNat

/-- A character that continues a word of the grammar: a letter, a number or an underscore. -/
def isIdentifier (c : Char) : Bool :=
  c == '_' || isAlphabetic c || isDecimalDigit c || numeral.has c.toNat

/-- A word character of a pattern: a letter, a mark, a decimal digit, connector punctuation or a
joiner, unless it is too recent. -/
def isWord (c : Char) : Bool :=
  (isAlphabetic c || mark.has c.toNat || isDecimalDigit c || connector.has c.toNat ||
    joinControl.has c.toNat) && !recent.has c.toNat

/-- The word characters of a pattern as one set. -/
def wordRanges : Ranges :=
  Ranges.minus ([mark, decimalDigit, connector, joinControl].foldl Ranges.union alphabetic) recent

/-- The decimal digits of a pattern as one set. -/
def digitRanges : Ranges := Ranges.minus decimalDigit recent

/-- A character that is shown as it is in quoted text. -/
def isPrintable (c : Char) : Bool := printable.has c.toNat && !filler.has c.toNat

/-- A character that only extends the one before it. -/
def extendsGrapheme (c : Char) : Bool := graphemeExtend.has c.toNat

end Text
end Curtail
