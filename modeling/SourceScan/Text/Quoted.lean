import SourceScan.Text.CodeString
import SourceScan.Text.PrintTable

/-!
# Quoted text

`quoted` shows a string inside a message: in single quotes, or in double quotes if it holds a single
quote and no double one. A backslash stands before a backslash and before the quotation mark in use,
and what is not printable is written by its number, and so is a lone half of a surrogate pair.
-/

namespace SourceScan.Text

/-- The last `n` hexadecimal digits of a number. -/
def hexText : (n : Nat) → Nat → List Char
  | 0, _ => []
  | n + 1, x => hexText n (x / 16) ++ [Nat.digitChar (x % 16)]

/-- A character inside quotation marks. -/
def quotedChar (mark c : Char) : List Char :=
  let n := c.toNat
  if c == mark || c == '\\' then ['\\', c]
  else if c == '\n' then ['\\', 'n']
  else if c == '\r' then ['\\', 'r']
  else if c == '\t' then ['\\', 't']
  else if printTable.contains n then [c]
  else if n < 0x100 then '\\' :: 'x' :: hexText 2 n
  else if n < 0x10000 then '\\' :: 'u' :: hexText 4 n
  else '\\' :: 'U' :: hexText 8 n

/-- A code point inside quotation marks. -/
def quotedPoint (mark : Char) : CodePoint → List Char
  | .scalar c => quotedChar mark c
  | .lone half => '\\' :: 'u' :: hexText 4 half.code

/-- The string in quotation marks. -/
def quoted (s : CodeString) : String :=
  let mark :=
    if s.contains (.scalar '\x27') && !s.contains (.scalar '\x22') then '\x22' else '\x27'
  String.ofList (mark :: s.flatMap (quotedPoint mark) ++ [mark])

end SourceScan.Text
