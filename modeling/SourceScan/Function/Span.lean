import SourceScan.Function.Header
import SourceScan.Function.BraceBody
import SourceScan.Function.IndentBody

/-!
# Functions and how long they are

The functions of a text, each with its name, its first line and the number of lines it spans. A
nested function is listed on its own, and the function around it spans its lines as well.
-/

namespace SourceScan

/-- A function found in a text. Lines are numbered from 1. -/
structure FunctionSpan where
  name : String
  lines : Nat
  startLine : Nat
  deriving Repr, DecidableEq

namespace FunctionSpan

/-- The span from line index `first` to line index `last`. -/
def ofIndices (name : String) (first last : Nat) : FunctionSpan :=
  ⟨name, last + 1 - first, first + 1⟩

/-- The function whose header is line `i`, in a language with indented bodies. -/
def indentedAt (lines : List (List Char)) (line : List Char) (i : Nat) : Option FunctionSpan :=
  (Header.python.name? line.toArray).map fun name =>
    ofIndices name i
      (IndentBody.bodyEnd lines (IndentBody.signatureEnd lines i) (Text.indent line))

/-- The function whose header is line `i`, in a language with bodies in braces. -/
def bracedAt (headers : List Header) (lines : List (List Char)) (line : List Char) (i : Nat) :
    Option FunctionSpan := do
  let name ← headerName? headers line.toArray
  let last ← BraceBody.endLine? lines i
  return ofIndices name i last

/-- The functions of a text in the order of their headers. -/
def ofText (language : Language) (text : List Char) : List FunctionSpan :=
  let lines := Text.lines text
  lines.zipIdx.filterMap fun (line, i) =>
    match language with
    | .python => indentedAt lines line i
    | _ => bracedAt language.braceHeaders lines line i

end FunctionSpan

end SourceScan
