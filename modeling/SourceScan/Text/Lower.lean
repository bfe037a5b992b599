import SourceScan.Text.LowerTable
import SourceScan.Text.CaseTable
import SourceScan.Text.CodeString

/-!
# Lower case

`lowerChars` writes a text in lower-case letters. Every letter goes to its simple lower-case letter
except two: `İ` becomes `i` followed by a combining dot, and the capital sigma becomes the final
form where it ends a word, which is where a cased letter comes before it and none after it, both
looked for across case-ignorable characters.
-/

namespace SourceScan.Text

/-- The simple lower-case letter of a character. -/
def lowerChar (c : Char) : Char :=
  if c.toNat < 128 then c.toLower
  else
    let n := c.toNat
    match lowerTable.find? fun r => r.first ≤ n && n ≤ r.last && (n - r.first) % r.step == 0 with
    | some r => Char.ofNat (n + r.shift).toNat
    | none => c

/-- Whether the first character that is not case-ignorable has case. -/
def startsCased (cs : List Char) : Bool :=
  match cs.dropWhile fun c => ignorableTable.contains c.toNat with
  | c :: _ => casedTable.contains c.toNat
  | [] => false

/-- The lower-case form of `c` between the characters before it, nearest first, and those after. -/
def lowerAt (before : List Char) (c : Char) (after : List Char) : List Char :=
  if c == '\u0130' then ['i', '\u0307']
  else if c == '\u03A3' then
    [if startsCased before && !startsCased after then '\u03C2' else '\u03C3']
  else [lowerChar c]

/-- Walks the text with the characters already passed, nearest first, and collects the lower-case
text in reverse. -/
def lowerGo : (before : List Char) → List Char → (done : List Char) → List Char
  | _, [], done => done.reverse
  | before, c :: after, done => lowerGo (c :: before) after ((lowerAt before c after).reverse ++ done)

/-- The text in lower case. -/
def lowerChars (cs : List Char) : List Char := lowerGo [] cs []

end SourceScan.Text

namespace SourceScan.CodeString

/-- The string in lower case. A lone half of a pair has no case and ends a word, so each stretch of
characters between such halves is a text of its own. -/
def lower (s : CodeString) : CodeString :=
  let (stretch, rest) := s.foldr (fun p (stretch, rest) =>
    match p with
    | .scalar c => (c :: stretch, rest)
    | .lone _ => ([], p :: (ofChars (Text.lowerChars stretch) ++ rest)))
    (([], []) : List Char × CodeString)
  ofChars (Text.lowerChars stretch) ++ rest

end SourceScan.CodeString
