import SourceScan.Issue.Basic
import SourceScan.Pattern.Search
import SourceScan.Text.Lower

/-!
# Rules and catalogs

A rule is a pattern for lines together with the finding that a match means. A catalog is the ordered
table of the rules of one analyzer. A rule may be limited to files of certain extensions, and it may
pass over lines that are commented out.
-/

namespace SourceScan

/-- A line pattern and the finding it produces. -/
structure Rule where
  name : String
  category : Category
  severity : Severity
  message : String
  description : String
  suggestion : String
  pattern : Pattern
  /-- Whether the rule passes over lines that start with a comment marker. -/
  skipComments : Bool := false
  /-- The extensions of the files it is for; `none` is every file. -/
  extensions : Option (List String) := none
  impact : Option String := none

namespace Rule

/-- Whether the rule is for files of a (lower-case) extension. -/
def appliesTo (r : Rule) (extension : CodeString) : Bool :=
  match r.extensions with
  | none => true
  | some es => es.any fun e => CodeString.ofString e == extension

/-- Whether the rule's pattern is found in the line. -/
def matchesLine (r : Rule) (line : Array Char) : Bool := r.pattern.found line

/-- The finding of the rule on a line of a file. -/
def issue (r : Rule) (file : CodeString) (line : Nat) : Issue where
  category := r.category
  severity := r.severity
  file := file
  line := some line
  message := r.message
  description := r.description
  suggestion := r.suggestion
  rule := r.name
  impact := r.impact

end Rule

/-- The ordered table of the rules of one analyzer. -/
structure Catalog where
  name : String
  rules : List Rule

namespace Catalog

/-- The rules for files of an extension, in table order; case makes no difference. -/
def forExtension (c : Catalog) (extension : CodeString) : List Rule :=
  c.rules.filter (·.appliesTo extension.lower)

/-- The categories that occur in the catalog, each once. -/
def categories (c : Catalog) : List Category := (c.rules.map (·.category)).eraseDups

/-- A short description of the catalog. -/
def describe (c : Catalog) : String :=
  "RuleCatalog('" ++ c.name ++ "', " ++ toString c.rules.length ++ " rules)"

end Catalog

end SourceScan
