import SourceScan.Text.CharClass

/-!
# Integers written as text

A text that should be an integer is read in two attempts. The first takes it as it stands and admits
the plain form only (`plain`): digits without idle zeros after an optional minus. Digits beyond the
limit end the reading there and then, whatever follows them.

The second attempt tidies the text first (`tidy`): white space at its ends goes, then one sign, idle
zeros at the front, a point with nothing but zeros after it, and low lines between digits. What is
left has to have the plain form, and to stay within the limit. Zeros and low lines count as idle up
to the first other digit or to a minus, so that a minus may stand after zeros.
-/

namespace SourceScan

/-- What reading a text as an integer gives. -/
inductive IntegerText
  | ok (n : Int)
  | tooLong
  | malformed
  deriving Repr, DecidableEq

namespace IntegerText

/-- The most digits that an integer may have. -/
def maxDigits : Nat := 4300

/-- The number that decimal digits write. -/
def value (digits : List Char) : Nat := digits.foldl (fun n c => n * 10 + (c.toNat - 48)) 0

/-- Reads digits without idle zeros. -/
def plainNat : List Char → IntegerText
  | [] => malformed
  | '0' :: rest => if rest.isEmpty then ok 0 else malformed
  | cs =>
    let digits := cs.takeWhile Char.isDigit
    if maxDigits < digits.length then tooLong
    else if digits.isEmpty || digits.length < cs.length then malformed
    else ok (value digits)

/-- The integer of the other sign. -/
def negate : IntegerText → IntegerText
  | ok n => ok (-n)
  | other => other

/-- Reads an integer in the plain form. -/
def plain : List Char → IntegerText
  | '-' :: rest => (plainNat rest).negate
  | cs => plainNat cs

/-- Takes the white space off both ends of a text. -/
def trim (cs : List Char) : List Char :=
  ((cs.dropWhile Text.isWhiteSpace).reverse.dropWhile Text.isWhiteSpace).reverse

/-- The text from the first digit that is not idle, or from a minus. `last` is the character passed
last, which stays in front of a point and is all that is left if nothing else comes. -/
def afterZeros (last : Char) : List Char → Option (List Char)
  | [] => some [last]
  | c :: rest =>
    if c == '0' || c == '_' then afterZeros c rest
    else if c.isDigit || c == '-' then some (c :: rest)
    else if c == '.' then some (last :: c :: rest)
    else none

/-- Takes the idle zeros off the front of a text, which has to begin with a digit. -/
def dropZeros : List Char → Option (List Char)
  | [] => none
  | c :: rest =>
    if c == '0' then afterZeros c rest
    else if c.isDigit then some (c :: rest)
    else none

/-- Takes off a point with nothing but zeros after it. -/
def dropFraction (cs : List Char) : List Char :=
  match cs.dropWhile (· != '.') with
  | _ :: zeros =>
    if !zeros.isEmpty && zeros.all (· == '0') then cs.takeWhile (· != '.') else cs
  | [] => cs

/-- Whether two low lines stand next to each other. -/
def hasDoubleLine : List Char → Bool
  | '_' :: '_' :: _ => true
  | _ :: rest => hasDoubleLine rest
  | [] => false

/-- Takes the low lines out of a text in which each of them stands alone and between two others. -/
def dropLines (cs : List Char) : List Char :=
  if cs.head? == some '_' || cs.getLast? == some '_' || hasDoubleLine cs then cs
  else cs.filter (· != '_')

/-- A text without a sign in the plain form, as far as it has one. -/
def tidyBody (cs : List Char) : Option (List Char) :=
  (dropZeros cs).map fun cs => dropLines (dropFraction cs)

/-- A text in the plain form, as far as it has one. -/
def tidy (cs : List Char) : Option (List Char) :=
  match trim cs with
  | '-' :: body => (tidyBody body).map ('-' :: ·)
  | '+' :: body => tidyBody body
  | body => tidyBody body

/-- Reads a text as an integer. -/
def read (cs : List Char) : IntegerText :=
  match plain cs with
  | malformed =>
    match (tidy cs).map plain with
    | some (ok n) => ok n
    | _ => malformed
  | other => other

end IntegerText

end SourceScan
