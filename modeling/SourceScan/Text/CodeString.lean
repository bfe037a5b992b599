/-!
# Strings of code points

Names and the strings of JSON are sequences of code points, and not every one of them is a text: an
escape can name half of a surrogate pair that stands alone, and so can a file name that is not UTF-8.
`CodeString` holds them all, and `CodeString.toString?` is the text of those that are one.

Strings are ordered by code point, a half by its own code.
-/

namespace SourceScan

/-- Half of a surrogate pair, by its number. -/
structure Surrogate where
  code : Nat
  first_le : 0xD800 ≤ code
  le_last : code ≤ 0xDFFF
  deriving Repr, DecidableEq

/-- A code point: a character, or half of a surrogate pair that stands alone. -/
inductive CodePoint
  | scalar (c : Char)
  | lone (half : Surrogate)
  deriving Repr, DecidableEq

namespace CodePoint

/-- The number of a code point. -/
def code : CodePoint → Nat
  | scalar c => c.toNat
  | lone half => half.code

/-- Whether the code point is a character. -/
def isScalar : CodePoint → Bool
  | scalar _ => true
  | lone _ => false

/-- The character of a code point, if it is one. -/
def char? : CodePoint → Option Char
  | scalar c => some c
  | lone _ => none

/-- The character that stands for a code point where only its classes count. A lone half is neither
word nor blank, has no case and is no character that a pattern names, and so is the replacement
character. -/
def shown : CodePoint → Char
  | scalar c => c
  | lone _ => '\uFFFD'

end CodePoint

/-- A string of code points. -/
abbrev CodeString := List CodePoint

namespace CodeString

/-- The string of some characters. -/
def ofChars (cs : List Char) : CodeString := cs.map .scalar

/-- The string of a text. -/
def ofString (s : String) : CodeString := ofChars s.toList

instance : Coe String CodeString := ⟨ofString⟩

/-- The text of a string, if all its code points are characters. -/
def toString? (s : CodeString) : Option String :=
  if s.all CodePoint.isScalar then some (String.ofList (s.filterMap CodePoint.char?)) else none

/-- The characters of a string as the analyses see them. -/
def shown (s : CodeString) : List Char := s.map CodePoint.shown

/-- The order of strings by code point: the first two that differ decide, and a string comes after
what it begins with. -/
def le : CodeString → CodeString → Bool
  | [], _ => true
  | _ :: _, [] => false
  | p :: rest, q :: others => p.code < q.code || (p.code == q.code && le rest others)

/-- Strings one after the other with `separator` between them. -/
def join (separator : String) (parts : List CodeString) : CodeString :=
  (ofString separator).intercalate parts

end CodeString

end SourceScan
