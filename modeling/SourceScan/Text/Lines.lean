import SourceScan.Text.CharClass

/-!
# Lines and margins

A source text is read line by line: `lines` cuts at every line feed and at nothing else, so a text
with `n` line feeds has `n + 1` lines. What is read from a file has its line ends unified first
(`unifyNewlines`). `paragraphs` cuts at every character that may end a line, and
drops an empty last piece; it is the reading of files that list one item to a line.

`strip` takes the blanks off both ends.
-/

namespace SourceScan.Text

/-- Cuts a text at the characters that `cut` accepts; the pieces are in order, and there is one more
piece than there are cuts. -/
def splitAll (cut : Char → Bool) (cs : List Char) : List (List Char) :=
  cs.foldr (fun c pieces =>
    if cut c then [] :: pieces
    else
      match pieces with
      | piece :: rest => (c :: piece) :: rest
      | [] => [[c]]) [[]]

/-- The lines of a text: the pieces between line feeds. -/
def lines (cs : List Char) : List (List Char) := splitAll (· == '\n') cs

/-- Takes a carriage return off the end of a line. -/
def dropReturn (line : List Char) : List Char :=
  if line.getLast? == some '\r' then line.dropLast else line

/-- The text with each line feed that follows a carriage return taken out, so that the two together
are one break. -/
def joinReturns (cs : List Char) : List Char :=
  ((' ' :: cs).zip cs).filterMap fun (before, c) =>
    if before == '\r' && c == '\n' then none else some c

/-- The text with every line end, be it `\n`, `\r\n` or `\r`, written as one line feed. -/
def unifyNewlines (cs : List Char) : List Char :=
  (joinReturns cs).map fun c => if c == '\r' then '\n' else c

/-- The pieces between line breaks of any kind; a break at the end of the text ends the last piece
and begins no other. -/
def paragraphs (cs : List Char) : List (List Char) :=
  let pieces := splitAll isLineBreak (joinReturns cs)
  if pieces.getLast? == some [] then pieces.dropLast else pieces

/-- The text without the blanks at its start. -/
def stripStart (cs : List Char) : List Char := cs.dropWhile isBlank

/-- The text without the blanks at its ends. -/
def strip (cs : List Char) : List Char := (stripStart (stripStart cs).reverse).reverse

/-- How many blanks a line begins with. -/
def indent (line : List Char) : Nat := (line.takeWhile isBlank).length

end SourceScan.Text
