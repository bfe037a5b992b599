import SourceScan.Check.BuildConfig
import SourceScan.Check.Manifest
import SourceScan.Check.Requirements
import SourceScan.Rule.Performance
import SourceScan.Rule.Security
import SourceScan.Tree.Walk

/-!
# The two analyzers

What each analyzer walks, which rules it applies, whether it checks whole files, and which files of
the project it looks at by name once the walk is over.
-/

namespace SourceScan

/-- An analyzer. -/
inductive Analyzer
  | security
  | performance
  deriving Repr, DecidableEq

namespace Analyzer

/-- The analyzers. -/
def all : List Analyzer := [security, performance]

/-- The written name of an analyzer. -/
def name : Analyzer → String
  | security => "security"
  | performance => "performance"

/-- The analyzer of a written name, if it is one. -/
def ofName? (s : String) : Option Analyzer := all.find? (·.name == s)

/-- The rules of an analyzer. -/
def catalog : Analyzer → Catalog
  | security => .security
  | performance => .performance

/-- The extensions of the files that an analyzer walks. -/
def extensions : Analyzer → List CodeString
  | security => [".js", ".ts", ".jsx", ".tsx", ".py", ".php", ".java", ".rb", ".go", ".rs", ".sol",
      ".c", ".cpp", ".h", ".hpp"]
  | performance => [".js", ".jsx", ".ts", ".tsx", ".vue", ".svelte", ".py", ".java", ".go", ".rb",
      ".php", ".cs", ".cpp", ".c", ".h", ".swift", ".kt", ".rs", ".json", ".yaml", ".yml", ".sql"]

/-- The directories that an analyzer passes over. -/
def skip : Analyzer → List CodeString
  | security => securitySkip
  | performance => standardSkip

/-- Whether an analyzer checks whole files: their complexity, functions and size. -/
def checksFiles : Analyzer → Bool
  | security => false
  | performance => true

/-- The findings on the files of the project that an analyzer looks at by name; `read` gives the text
of a file at the root, if there is one. -/
def projectIssues (a : Analyzer) (config : Config) (read : String → Option (List Char)) :
    Except CheckError (List Issue) :=
  match a with
  | security => Manifest.checkScripts ((read Manifest.fileName).map CodeString.ofChars)
  | performance => do
    let manifest ← Manifest.checkDependencies config
      ((read Manifest.fileName).map CodeString.ofChars)
    return manifest ++ BuildConfig.issuesIn read ++
      Requirements.issuesIn (read Requirements.fileName)

/-- Checks the name of an analyzer. -/
def check : Json → Checked Analyzer :=
  Json.checkName (.notLiteral (all.map name)) ofName?

end Analyzer

end SourceScan
