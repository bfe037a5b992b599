import SourceScan.Pattern.Search

/-!
# The complexity of a file

A whole file gets one score: 1, and 1 more for every place where the flow may branch. Such a place
is one of seven tokens, counted anywhere in the text, strings and comments included. An `else if`
counts twice, once for each of the two tokens it holds.
-/

namespace SourceScan.Complexity

open Pattern CharSet

/-- A keyword and the bracket that follows it. -/
def bracketed (keyword : String) : Pattern :=
  inOrder [boundary, lit keyword, blanks, lit "("]

/-- The tokens at which the flow may branch. -/
def tokens : List Pattern := [
  bracketed "if",
  inOrder [boundary, lit "else", blanks1, lit "if", blanks, lit "("],
  bracketed "while",
  bracketed "for",
  bracketed "catch",
  inOrder [boundary, lit "case", blanks1, atLeast 1 (compl (ofList [':', '\n'])), lit ":"],
  lit "&&" ||| lit "||"]

/-- The score of a text: 1 and the number of its branching tokens. -/
def score (text : Array Char) : Nat :=
  tokens.foldl (fun n token => n + token.count text) 1

end SourceScan.Complexity
