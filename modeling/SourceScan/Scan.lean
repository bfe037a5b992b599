import SourceScan.Check.File
import SourceScan.LineScan
import SourceScan.ScanResult
import SourceScan.Text.Utf8

/-!
# Scanning a tree

One run of an analyzer: it walks the tree and checks each file it comes upon, and then looks at the
files of the project by name. A file that the walk cannot read is counted and has no findings. An
error ends the run, and what was found before it is kept.
-/

namespace SourceScan.Scan

/-- The findings of a check, each of them looked over; the first that is no issue ends the check. -/
def vetAll (found : List Issue) : Except CheckError (List Issue) :=
  found.mapM fun i => i.vet.mapError .invalid

/-- The findings on one file, from its path and its bytes. -/
def fileIssues (a : Analyzer) (config : Config) (path : CodeString) (bytes : FileBytes) :
    Except CheckError (List Issue) := do
  let text := Text.ofBytes bytes.bytes
  let onLines ← vetAll (scanLines a.catalog path text)
  if a.checksFiles then
    let score ← vetAll (FileCheck.complexity config path text)
    let long ← vetAll (FileCheck.functionLength config path text)
    let size ← vetAll (← FileCheck.fileSize config path bytes.bytes.size)
    return onLines ++ score ++ long ++ size
  else return onLines

/-- The findings on one file of the walk; none if it cannot be read. -/
def pathIssues (a : Analyzer) (config : Config) (path : CodeString) (bytes : Option FileBytes) :
    Except CheckError (List Issue) :=
  match bytes with
  | some b => fileIssues a config path b
  | none => .ok []

/-- What an analyzer walks under a configuration. -/
def walk (a : Analyzer) (config : Config) : Walk where
  extensions := a.extensions
  skip := a.skip ++ config.extraExcludeDirs
  maxDepth := config.maxDepth

/-- What a file at a path from the root holds, links followed. -/
def contentAt? (top : Node) (root : Door) (path : RelativePath) : Option Content :=
  match top.open? root path.text with
  | some (.file content) => some content
  | _ => none

/-- The bytes that the walk reads at a path from the root, if it can. -/
def walkedBytes? (top : Node) (root : Door) (path : RelativePath) : Option FileBytes :=
  (contentAt? top root path).bind Content.walked?

/-- The text of a file at the root, read by its name. -/
def projectText? (top : Node) (root : Door) (name : String) : Option (List Char) :=
  ((contentAt? top root [name]).bind Content.named?).map fun b => Text.ofBytes b.bytes

/-- The findings on the files of the project that the analyzer looks at by name. -/
def projectIssues (a : Analyzer) (config : Config) (top : Node) (root : Door) :
    Except CheckError (List Issue) := do
  vetAll (← a.projectIssues config (projectText? top root))

/-- The findings and the number of files looked at, collected file by file until an error ends the
run: the third part says whether it did. -/
def collect (a : Analyzer) (config : Config) (top : Node) (root : Door) :
    (paths : List RelativePath) → (issues : List Issue) → (files : Nat) → List Issue × Nat × Bool
  | [], issues, files => (issues, files, false)
  | path :: rest, issues, files =>
    match pathIssues a config path.text (walkedBytes? top root path) with
    | .ok more => collect a config top root rest (issues ++ more) (files + 1)
    | .error _ => (issues, files + 1, true)

/-- The findings of a run and the number of files looked at. -/
def run (a : Analyzer) (config : Config) (top : Node) (root : Door) : List Issue × Nat :=
  match collect a config top root ((walk a config).files top root) [] 0 with
  | (issues, files, true) => (issues, files)
  | (issues, files, false) =>
    match projectIssues a config top root with
    | .ok more => (issues ++ more, files)
    | .error _ => (issues, files)

end Scan

/-- Scans the directory at `root` with one analyzer. -/
def scan (a : Analyzer) (config : Config) (time : RunTime) (top : Node) (root : Door) :
    ScanResult :=
  let (issues, files) := Scan.run a config top root
  ScanResult.ofIssues a time issues files

end SourceScan
