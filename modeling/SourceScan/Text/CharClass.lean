import SourceScan.Text.WordTable
import SourceScan.Text.DigitTable

/-!
# Classes of characters

The three classes that patterns name: word characters, decimal digits and blanks. All three are
those of Unicode 14; below 128 each is a short rule, and above it the first two are tables.

`isBlank` is what the analyses call whitespace. It holds four control characters more than the
White_Space property does (`isWhiteSpace`): the separators U+001C to U+001F.
-/

namespace SourceScan.Text

/-- A letter, a number or the low line: what a word is made of. -/
def isWord (c : Char) : Bool :=
  if c.toNat < 128 then c.isAlphanum || c == '_' else wordTable.contains c.toNat

/-- A decimal digit of any script. -/
def isDigit (c : Char) : Bool :=
  if c.toNat < 128 then c.isDigit else digitTable.contains c.toNat

/-- Whether the code point has the White_Space property. -/
def isWhiteSpace (c : Char) : Bool :=
  let n := c.toNat
  (9 ≤ n && n ≤ 13) || n == 32 || n == 0x85 || n == 0xA0 || n == 0x1680 ||
    (0x2000 ≤ n && n ≤ 0x200A) || n == 0x2028 || n == 0x2029 || n == 0x202F || n == 0x205F ||
    n == 0x3000

/-- White space, or one of the four information separators. -/
def isBlank (c : Char) : Bool :=
  (0x1C ≤ c.toNat && c.toNat ≤ 0x1F) || isWhiteSpace c

/-- Whether a line break may stand at the character: line feed, vertical tab, form feed, carriage
return, three separators, next line, line and paragraph separator. -/
def isLineBreak (c : Char) : Bool :=
  let n := c.toNat
  (10 ≤ n && n ≤ 13) || (0x1C ≤ n && n ≤ 0x1E) || n == 0x85 || n == 0x2028 || n == 0x2029

end SourceScan.Text
