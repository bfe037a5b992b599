import SourceScan.Text.Lines

/-!
# Indented bodies

Where a function ends whose body is indented. The signature ends on the first line at which its
round and square brackets balance, what follows a `#` left out of account; if they never do, it ends
where it starts. The body is the lines after it that are indented more than the header; blank lines
belong to it only if more of the body follows.
-/

namespace SourceScan.IndentBody

/-- Opening less closing brackets on a line, up to the first `#`. -/
def balance (line : List Char) : Int :=
  (line.takeWhile (· != '#')).foldl (fun n c =>
    if c == '(' || c == '[' then n + 1
    else if c == ')' || c == ']' then n - 1
    else n) 0

/-- How many lines further on the brackets balance, with `depth` of them open and `passed` lines
behind; `none` if they never do. -/
def balancedAfter : (depth : Int) → (passed : Nat) → List (List Char) → Option Nat
  | _, _, [] => none
  | depth, passed, line :: rest =>
    let depth := depth + balance line
    if depth ≤ 0 then some passed else balancedAfter depth (passed + 1) rest

/-- The index of the line on which the signature that starts on line `start` ends. -/
def signatureEnd (lines : List (List Char)) (start : Nat) : Nat :=
  start + (balancedAfter 0 0 (lines.drop start)).getD 0

/-- The index of the last line of the body: `last` is the last one known to belong to it, `next` the
index of the line that comes next. -/
def bodyEndFrom (indent : Int) : (last next : Nat) → List (List Char) → Nat
  | last, _, [] => last
  | last, next, line :: rest =>
    if (Text.strip line).isEmpty then bodyEndFrom indent last (next + 1) rest
    else if indent < Text.indent line then bodyEndFrom indent next (next + 1) rest
    else last

/-- The index of the last line of a function whose signature ends on line `start` and whose header
is indented by `indent` blanks. -/
def bodyEnd (lines : List (List Char)) (start : Nat) (indent : Int) : Nat :=
  bodyEndFrom indent start (start + 1) (lines.drop (start + 1))

end SourceScan.IndentBody
