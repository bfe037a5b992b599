/-!
# Bodies in braces

Where the body of a function ends that stands in braces. From the header's line on, braces are
counted outside of comments and literals; the body ends at the first closing brace that brings the
count back to zero after an opening one. A semicolon before any opening brace means that there is no
body, only a declaration. A body whose braces never balance runs to the end of the text.

A literal in single or double quotes ends with its line at the latest; a template literal and a block
comment go on across lines. In a literal a backslash takes the next character of the line with it.

The scanner reads one character at a time. What a character means is decided by the context
(`Context`), which has a case of its own for the half of a comment mark and for a character that a
backslash takes.
-/

namespace SourceScan.BraceBody

/-- What the scanner is inside of. -/
inductive Context
  | code
  /-- After a slash in code, which may begin a comment. -/
  | slash
  | lineComment
  | blockComment
  /-- After a star in a block comment, which may end it. -/
  | star
  /-- In a quoted literal; `escaped` says that a backslash takes the next character. -/
  | quoted (mark : Char) (escaped : Bool)
  | template (escaped : Bool)
  deriving Repr, DecidableEq

/-- The mark of a template literal. -/
def templateMark : Char := '\x60'

namespace Context

/-- The context after a character of code. -/
def afterCode (c : Char) : Context :=
  if c == '/' then slash
  else if c == '\x22' || c == '\x27' then quoted c false
  else if c == templateMark then template false
  else code

/-- The context after one more character of the line. -/
def next : Context → Char → Context
  | code, c => afterCode c
  | slash, c => if c == '/' then lineComment else if c == '*' then blockComment else afterCode c
  | lineComment, _ => lineComment
  | blockComment, c => if c == '*' then star else blockComment
  | star, c => if c == '/' then code else if c == '*' then star else blockComment
  | quoted mark true, _ => quoted mark false
  | quoted mark false, c =>
    if c == '\\' then quoted mark true else if c == mark then code else quoted mark false
  | template true, _ => template false
  | template false, c =>
    if c == '\\' then template true else if c == templateMark then code else template false

/-- The context at the start of the next line. -/
def nextLine : Context → Context
  | code | slash | lineComment | quoted _ _ => code
  | blockComment | star => blockComment
  | template _ => template false

/-- Whether the next character is code, unless it completes a comment mark. -/
def isCode : Context → Bool
  | code | slash => true
  | _ => false

end Context

/-- The scanner between two characters: opening braces less closing ones, whether any opening one was
met, and what it is inside of. -/
structure State where
  depth : Int
  opened : Bool
  context : Context
  deriving Repr, DecidableEq

/-- The state at the header. -/
def State.initial : State := ⟨0, false, .code⟩

/-- What a piece of text brings: more text is needed, or the body closes in it, or a semicolon ends
the statement before a body. -/
inductive Progress
  | more (s : State)
  | closes
  | declares
  deriving Repr, DecidableEq

/-- Reads one character. -/
def State.read (s : State) (c : Char) : Progress :=
  let context := s.context.next c
  if s.context.isCode then
    if c == '\x7b' then .more ⟨s.depth + 1, true, context⟩
    else if c == '\x7d' then
      if s.opened && s.depth - 1 ≤ 0 then .closes else .more ⟨s.depth - 1, s.opened, context⟩
    else if c == ';' && !s.opened then .declares
    else .more { s with context := context }
  else .more { s with context := context }

/-- Reads the rest of a line. -/
def scanLine (s : State) : List Char → Progress
  | [] => .more { s with context := s.context.nextLine }
  | c :: rest =>
    match s.read c with
    | .more s => scanLine s rest
    | .closes => .closes
    | .declares => .declares

/-- How many lines after the first one the body ends, with `passed` lines behind; `none` if there is
no body. -/
def endFrom (s : State) : (passed : Nat) → List (List Char) → Option Nat
  | passed, [] => if s.opened then some (passed - 1) else none
  | passed, line :: rest =>
    match scanLine s line with
    | .more s => endFrom s (passed + 1) rest
    | .closes => some passed
    | .declares => none

/-- The index of the line on which the body ends that begins at or after line `start`. -/
def endLine? (lines : List (List Char)) (start : Nat) : Option Nat :=
  (endFrom .initial 0 (lines.drop start)).map (start + ·)

end SourceScan.BraceBody
