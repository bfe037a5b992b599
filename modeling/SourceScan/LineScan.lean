import SourceScan.Rule.Basic
import SourceScan.Text.Lines
import SourceScan.Tree.FileName

/-!
# Scanning lines

A catalog is applied to a text line by line: every rule for the file's extension is tried on every
line, and each match is one issue. A carriage return that ends a line is not part of it. A line is
commented out when its first text is a comment marker; a rule may ask to be left out there.
-/

namespace SourceScan

/-- What a commented-out line starts with. -/
def commentMarkers : List (List Char) := [['/', '/'], ['#'], ['/', '*'], ['*']]

/-- Whether the first text of the line is a comment marker. -/
def isCommentedOut (line : List Char) : Bool :=
  let text := Text.strip line
  commentMarkers.any (·.isPrefixOf text)

/-- The issues of one line, in the order of the rules. -/
def lineIssues (rules : List Rule) (file : CodeString) (number : Nat) (line : List Char) : List Issue :=
  let line := Text.dropReturn line
  let commented := isCommentedOut line
  let text := line.toArray
  (rules.filter fun r => !(r.skipComments && commented) && r.matchesLine text).map
    (·.issue file number)

/-- The issues of a text, in line order and then in the order of the catalog. The extension of
`file` decides which rules apply. -/
def scanLines (catalog : Catalog) (file : CodeString) (text : List Char) : List Issue :=
  let rules := catalog.forExtension (FileName.suffix file)
  (Text.lines text).zipIdx.flatMap fun (line, i) => lineIssues rules file (i + 1) line

end SourceScan
