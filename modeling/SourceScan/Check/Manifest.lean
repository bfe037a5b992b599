import SourceScan.Check.Error
import SourceScan.Config
import SourceScan.Issue.Json
import SourceScan.Pattern.Search

/-!
# The package manifest

The checks of `package.json`: heavy runtime dependencies and too many of them, and scripts that pipe
a download into a shell. A manifest that is missing, is not JSON or is no object has no findings; one
that passes a limit of the JSON reader ends the check.

Names and scripts are JSON strings. A name that is no text cannot stand in a message, so a finding
about it ends the check as well.
-/

namespace SourceScan.Manifest

/-- The name of the manifest file. -/
def fileName : String := "package.json"

/-- The members of the manifest in the text of its file; `none` stands for no file, and for a text
that is no manifest. -/
def load : Option CodeString → Except CheckError (Option Members)
  | none => .ok none
  | some text =>
    match Json.read text with
    | .ok (.obj members) => .ok (some members)
    | .ok _ => .ok none
    | .error (.malformed _ _) => .ok none
    | .error (.limit l) => .error (.limit l)

/-- The members of a member that is an object; none of any other. -/
def membersOf (manifest : Members) (name : String) : Members :=
  match Json.member? manifest name with
  | some (.obj ms) => ms
  | _ => []

/-- The finding on a heavy dependency. -/
def heavyDependency (name : String) : Issue where
  category := .performance .bundle
  severity := .medium
  file := fileName
  message := "Heavy dependency: " ++ name
  description := "Large dependencies increase bundle size"
  suggestion := "Consider lighter alternatives or tree shaking"
  rule := "heavy_dependency"
  impact := some "Bundle size and load time impact"

/-- The finding on the number of dependencies. -/
def manyDependencies (count : Nat) : Issue where
  category := .performance .bundle
  severity := .low
  file := fileName
  message := "Many dependencies: " ++ toString count
  description := "Large number of dependencies can impact performance"
  suggestion := "Audit dependencies and remove unused ones"
  rule := "dependency_count"
  impact := some "Bundle size impact"

/-- The finding on a script that pipes a download into a shell. -/
def pipedDownload (name : String) : Issue where
  category := .security .configuration
  severity := .high
  file := fileName
  message := "Potentially dangerous script: " ++ name
  description := "Piping a download into a shell runs unverified remote code"
  suggestion := "Avoid piping curl/wget output directly to a shell; pin and verify downloads"
  rule := "piped_download_script"

/-- The findings about names, in order; a name that is no text ends the check. -/
def issuesAbout (issue : String → Issue) (names : List CodeString) :
    Except CheckError (List Issue) :=
  names.mapM fun name =>
    match name.toString? with
    | some text => .ok (issue text)
    | none => .error (.invalid Issue.brokenMessage)

/-- The findings on the runtime dependencies. Dependencies for development do not ship and do not
count. -/
def dependencyIssues (config : Config) (manifest : Members) : Except CheckError (List Issue) := do
  let names := (membersOf manifest "dependencies").map (·.1)
  let heavy ← issuesAbout heavyDependency (names.filter config.heavyDependencies.contains)
  return heavy ++
    if config.maxDependencies < names.length then [manyDependencies names.length] else []

open Pattern CharSet in
/-- A download command, then the next pipe, then a shell. -/
def downloadIntoShell : Pattern :=
  inOrder [boundary, lit "curl" ||| lit "wget", boundary, run (compl (single '|')), lit "|", blanks,
    opt (lit "sudo" ++ blanks1), opt (lit "ba" ||| lit "z"), lit "sh", boundary]

/-- Whether a script pipes a download into a shell. -/
def isPipedDownload : Json → Bool
  | .str script => downloadIntoShell.found script.shown.toArray
  | _ => false

/-- The findings on the scripts, in their order. -/
def scriptIssues (manifest : Members) : Except CheckError (List Issue) :=
  issuesAbout pipedDownload
    (((membersOf manifest "scripts").filter fun (_, v) => isPipedDownload v).map (·.1))

/-- The dependency findings of the manifest in a text. -/
def checkDependencies (config : Config) (text : Option CodeString) :
    Except CheckError (List Issue) := do
  match ← load text with
  | some manifest => dependencyIssues config manifest
  | none => return []

/-- The script findings of the manifest in a text. -/
def checkScripts (text : Option CodeString) : Except CheckError (List Issue) := do
  match ← load text with
  | some manifest => scriptIssues manifest
  | none => return []

end SourceScan.Manifest
