import SourceScan.Language
import SourceScan.Pattern.Search

/-!
# Function headers

A header is recognised by what stands before the name, the name itself, and what follows it. The
name is a whole word, and what may come before it ends at a blank, a bracket or a sign, so a header
pattern leaves no choice as to which word is the name.

Keywords that may stand where a name stands (`if (x) {` reads like a method) are no names
(`notNames`).
-/

namespace SourceScan

/-- A header pattern for the start of a line: what comes before the name and what follows it. -/
structure Header where
  lead : Pattern
  tail : Pattern

namespace Header

open Pattern CharSet

/-- The ends of `p` from a place. -/
def endsFrom (t : Array Char) (p : Pattern) (i : Nat) : List Nat := reach t p [i]

/-- The name in a line that has the header, if the line has it. -/
def name? (h : Header) (line : Array Char) : Option String :=
  (endsFrom line h.lead 0).findSome? fun i =>
    (endsFrom line word1 i).findSome? fun j =>
      if (endsFrom line h.tail j).isEmpty then none
      else some (String.ofList (line.extract i j).toList)

/-! ## Pieces that several headers share -/

/-- A keyword and the blanks after it. -/
def keyword (s : String) : Pattern := lit s ++ blanks1

/-- An optional keyword and the blanks after it. -/
def maybe (s : String) : Pattern := opt (keyword s)

/-- Any number of keywords out of a list, each with the blanks after it. -/
def modifiers (words : List String) : Pattern :=
  many (oneOf (words.map lit) ++ blanks1)

/-- Round brackets and what they hold, up to the first closing one. -/
def brackets : Pattern := inOrder [lit "(", run (compl (single ')')), lit ")"]

/-- An opening brace. -/
def openBrace : Pattern := char (single '\x7b')

/-- An opening angle or round bracket after optional blanks. -/
def openList : Pattern := blanks ++ char (ofString "<(")

/-- An opening round bracket after optional blanks. -/
def openCall : Pattern := blanks ++ lit "("

/-! ## The headers of each language -/

/-- `def name(` after optional `async`. -/
def python : Header where
  lead := inOrder [atStart, blanks, maybe "async", keyword "def"]
  tail := openCall

/-- A function declaration, a function bound to a name, and a method. -/
def javascript : List Header := [
  { lead := inOrder [atStart, blanks, maybe "export", maybe "default", maybe "async",
      lit "function", blanks, opt (lit "*"), blanks]
    tail := openCall },
  { lead := inOrder [atStart, blanks, maybe "export", oneOf [lit "const", lit "let", lit "var"],
      blanks1]
    tail := inOrder [blanks, lit "=", blanks, maybe "async",
      oneOf [lit "function", inOrder [brackets, blanks, lit "=>"],
        inOrder [word1, blanks, lit "=>"]]] },
  { lead := inOrder [atStart, blanks,
      modifiers ["public", "private", "protected", "static", "async", "get", "set"]]
    tail := inOrder [blanks, brackets, blanks, openBrace] }]

/-- The headers of untyped code, and a method with a result type. -/
def typescript : List Header := javascript ++ [
  { lead := inOrder [atStart, blanks,
      modifiers ["public", "private", "protected", "static", "async", "readonly"]]
    tail := inOrder [blanks, opt (inOrder [lit "<", run (compl (single '>')), lit ">"]), blanks,
      brackets, blanks, lit ":", blanks,
      atLeast 1 (compl (ofList ['=', '\x7b', ';'])), openBrace] }]

/-- A function with an optional receiver. -/
def go : List Header := [
  { lead := inOrder [atStart, blanks, keyword "func", opt (brackets ++ blanks1)]
    tail := openCall }]

/-- A function with optional visibility. -/
def rust : List Header := [
  { lead := inOrder [atStart, blanks, opt (inOrder [lit "pub", opt (blanks ++ brackets), blanks1]),
      maybe "async", maybe "unsafe", keyword "fn"]
    tail := openList }]

/-- What a type and the modifiers before a name are written with. -/
def typeChars : CharSet := union word (ofString "<>[],*&:")

/-- A function after one of the words for it, and one after a result type. -/
def cFamily : List Header := [
  { lead := inOrder [atStart, blanks,
      modifiers ["public", "private", "protected", "internal", "static", "final", "abstract",
        "override", "open", "async"],
      oneOf [lit "function", lit "fun", lit "func"], blanks1]
    tail := openList },
  { lead := inOrder [atStart, blanks, many1 (atLeast 1 typeChars ++ blanks1),
      opt (char (ofString "*&"))]
    tail := inOrder [blanks, lit "(", run (compl (single ';')), atEnd] }]

end Header

namespace Language

/-- The headers of a language whose bodies stand in braces, in the order in which they are tried;
none for the language whose bodies are indented. -/
def braceHeaders : Language → List Header
  | python => []
  | javascript => Header.javascript
  | typescript => Header.typescript
  | go => Header.go
  | rust => Header.rust
  | cFamily => Header.cFamily

end Language

/-- Words that may stand where a function's name stands and are none. -/
def notNames : List String := [
  "if", "else", "for", "while", "switch", "catch", "with", "do", "return", "throw", "new", "delete",
  "typeof", "void", "in", "of", "sizeof", "foreach", "elseif", "using", "lock", "synchronized",
  "when", "guard"]

/-- The name that the first of the headers with a proper name gives to a line. -/
def headerName? (headers : List Header) (line : Array Char) : Option String :=
  headers.findSome? fun h => (h.name? line).filter fun name => !notNames.contains name

end SourceScan
