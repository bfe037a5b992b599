import SourceScan.Text.Lower
import SourceScan.Tree.FileName

/-!
# Languages

The families of languages that the function-length check tells apart. A file's language follows from
its extension; a file of another extension has none.
-/

namespace SourceScan

/-- A family of languages whose function headers look alike. -/
inductive Language
  | python
  | javascript
  | typescript
  | go
  | rust
  | cFamily
  deriving Repr, DecidableEq

namespace Language

/-- The families. -/
def all : List Language := [python, javascript, typescript, go, rust, cFamily]

/-- The written name of a family. -/
def name : Language → String
  | python => "python"
  | javascript => "javascript"
  | typescript => "typescript"
  | go => "go"
  | rust => "rust"
  | cFamily => "c-family"

/-- The family of a written name, if it is one. -/
def ofName? (s : String) : Option Language := all.find? (·.name == s)

/-- The family to which each known extension belongs. -/
def byExtension : List (String × Language) := [
  (".py", python),
  (".js", javascript), (".jsx", javascript), (".mjs", javascript), (".cjs", javascript),
  (".vue", javascript), (".svelte", javascript),
  (".ts", typescript), (".tsx", typescript),
  (".go", go),
  (".rs", rust),
  (".java", cFamily), (".kt", cFamily), (".cs", cFamily), (".c", cFamily), (".h", cFamily),
  (".cpp", cFamily), (".hpp", cFamily), (".swift", cFamily), (".php", cFamily), (".sol", cFamily)]

/-- The language of a file, from the extension of its name in lower case. -/
def ofFile? (file : CodeString) : Option Language := do
  byExtension.lookup (← (FileName.extension file.lower).toString?)

end Language

end SourceScan
