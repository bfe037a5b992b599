import SourceScan.Json.Literal
import SourceScan.Json.Writer
import SourceScan.Report
import SourceScan.Scan
import SourceScan.Tree.Root

/-!
# The command

The program on the command line reads one JSON object, scans the directory that it names, and prints
the result as JSON or as a report:

* `path`, or `directory` where that is nothing: the directory;
* `analyzer`: `security` or `performance`, the first if left out;
* `format`: `json` or `text`, the first if left out;
* `options`: a configuration.

A request that cannot be carried out is refused with a JSON object that says why (`Refusal`), in the
order in which the parts are listed above. A few values are not even refused (`CommandError`).

What is printed is a string, and printing it is taken to succeed. A report shows names as they are, so one with a
lone half of a surrogate pair can be printed only where the output takes such halves; JSON is plain ASCII.
-/

namespace SourceScan

/-- How the result is printed. -/
inductive OutputFormat
  | json
  | text
  deriving Repr, DecidableEq

namespace OutputFormat

/-- The formats. -/
def all : List OutputFormat := [json, text]

/-- The written name of a format. -/
def name : OutputFormat → String
  | json => "json"
  | text => "text"

/-- The format of a written name, if it is one. -/
def ofName? (s : String) : Option OutputFormat := all.find? (·.name == s)

end OutputFormat

/-- The kinds of value that a path cannot be. -/
inductive NonPath
  | bool
  | int
  | real
  | arr
  | obj
  deriving Repr, DecidableEq

/-- Why a request is neither carried out nor refused. -/
inductive CommandError
  | limit (l : Json.Limit)
  /-- A list or an object where a name is looked up. -/
  | notAName (container : Json.Container)
  /-- A value that is no string where a path is due. -/
  | notAPath (kind : NonPath)
  | path (e : PathError)
  deriving Repr, DecidableEq

namespace CommandError

/-- The error in words. -/
def message : CommandError → String
  | limit l => l.message
  | notAName .array => "unhashable type: 'list'"
  | notAName .object => "unhashable type: 'dict'"
  | notAPath kind =>
    "expected str, bytes or os.PathLike object, not " ++
      match kind with
      | .bool => "bool"
      | .int => "int"
      | .real => "float"
      | .arr => "list"
      | .obj => "dict"
  | path e => e.message

end CommandError

/-- Why a request is refused. -/
inductive Refusal
  | notJson (description : String)
  | notObject
  | noPath
  | unknownAnalyzer (shown : CodeString)
  | unknownFormat (shown : CodeString)
  | badOptions (problems : Invalid)
  | notDirectory (path : CodeString)
  deriving Repr, DecidableEq

namespace Refusal

/-- The number of errors in words. -/
def countText (n : Nat) : String :=
  toString n ++ if n == 1 then " validation error" else " validation errors"

/-- A text, a JSON string and a text in a row. -/
def around (before : String) (s : CodeString) (after : String) : CodeString :=
  CodeString.ofString before ++ s ++ CodeString.ofString after

/-- The refusal in words. For options that are not in order this is the first line alone, which counts the problems;
the lines that follow it with each of the problems are left out. -/
def message : Refusal → CodeString
  | notJson description => CodeString.ofString ("Invalid JSON input: " ++ description)
  | notObject => CodeString.ofString "Input must be a JSON object"
  | noPath => CodeString.ofString
      "Missing required input. Provide 'path' or 'directory' (local path)"
  | unknownAnalyzer shown => around "Invalid analyzer '" shown "'"
  | unknownFormat shown => around "Invalid format '" shown "'"
  | badOptions i => CodeString.ofString
      ("Invalid options: " ++ countText i.problems.length ++ " for " ++ i.form)
  | notDirectory path => around "Path is not a directory: " path ""

/-- What helps to mend the request: the names to choose from, or an example. -/
def hints : Refusal → List (String × Json)
  | noPath => [("examples", .object [("local",
      .object [("path", .text "."), ("analyzer", .text "security")])])]
  | unknownAnalyzer _ => [("valid_analyzers", .arr [.text "performance", .text "security"])]
  | unknownFormat _ => [("valid_formats", .arr [.text "json", .text "text"])]
  | _ => []

/-- The refusal as a JSON object. -/
def toJson (r : Refusal) : Json := .object (("error", .str r.message) :: r.hints)

end Refusal

/-- What the program prints, and whether it was successful. -/
inductive Printed
  | result (r : ScanResult)
  | report (text : CodeString)
  | refusal (r : Refusal)
  deriving Repr, DecidableEq

namespace Printed

/-- The exit code. -/
def exitCode : Printed → Nat
  | refusal _ => 1
  | _ => 0

/-- What is printed, with its final line end. -/
def text : Printed → CodeString
  | result r => r.toJson.render ++ "\n"
  | report t => t ++ CodeString.ofString "\n"
  | refusal r => r.toJson.render ++ "\n"

end Printed

/-- Why a request goes no further. -/
inductive Stop
  | refused (r : Refusal)
  | failed (e : CommandError)
  deriving Repr, DecidableEq

/-- What is printed in place of a result, if anything is. -/
def Stop.printed : Stop → Except CommandError Printed
  | refused r => .ok (.refusal r)
  | failed e => .error e

/-- A request in order: what to scan, and how. -/
structure Command where
  path : CodeString
  analyzer : Analyzer
  format : OutputFormat
  config : Config
  deriving Repr, DecidableEq

namespace Command

/-- A value that is to be one of some names. -/
def nameOf {α : Type} (find : String → Option α) (unknown : CodeString → Refusal) :
    Json → Except Stop α
  | .arr _ => .error (.failed (.notAName .array))
  | .obj _ => .error (.failed (.notAName .object))
  | v =>
    match v.text?.bind find with
    | some a => .ok a
    | none => .error (.refused (unknown v.spelled))

/-- The value that names the directory. -/
def pathValue (request : Members) : Except Stop Json :=
  let given (name : String) := (Json.member? request name).filter Json.isSome
  match given "path", given "directory" with
  | some v, _ => .ok v
  | none, some v => .ok v
  | none, none => .error (.refused .noPath)

/-- The path in the value that names the directory. -/
def pathOf : Json → Except Stop CodeString
  | .str s => .ok s
  | .null => .error (.refused .noPath)
  | .bool _ => .error (.failed (.notAPath .bool))
  | .int _ => .error (.failed (.notAPath .int))
  | .real _ => .error (.failed (.notAPath .real))
  | .arr _ => .error (.failed (.notAPath .arr))
  | .obj _ => .error (.failed (.notAPath .obj))

/-- The configuration in the options, where options that are nothing are none. -/
def configOf (options : Option Json) : Except Stop Config :=
  match options.filter Json.isSome with
  | none => .ok {}
  | some v =>
    match Config.ofJson v with
    | .ok c => .ok c
    | .error i => .error (.refused (.badOptions i))

/-- Reads the members of a request. -/
def ofMembers (request : Members) : Except Stop Command := do
  let path ← pathValue request
  let analyzer ← nameOf Analyzer.ofName? .unknownAnalyzer
    ((Json.member? request "analyzer").getD (.text "security"))
  let format ← nameOf OutputFormat.ofName? .unknownFormat
    ((Json.member? request "format").getD (.text "json"))
  let config ← configOf (Json.member? request "options")
  return ⟨← pathOf path, analyzer, format, config⟩

/-- Reads a request. -/
def read (text : CodeString) : Except Stop Command :=
  match Json.read text with
  | .ok (.obj request) => ofMembers request
  | .ok _ => .error (.refused .notObject)
  | .error (.malformed reason place) =>
    .error (.refused (.notJson (Json.describe reason place text)))
  | .error (.limit l) => .error (.failed (.limit l))

/-- What is printed of a result in the format asked for, where printing succeeds for any text. -/
def print (c : Command) (r : ScanResult) : Printed :=
  match c.format with
  | .json => .result r
  | .text => .report (Report.text Report.standardShown r)

/-- Carries out a request in a tree whose top is the directory that paths start from. -/
def answer (c : Command) (time : RunTime) (top : Node) : Except Stop Printed :=
  match top.named c.path with
  | .error e => .error (.failed (.path e))
  | .ok (some (root, .dir _ _)) => .ok (c.print (scan c.analyzer c.config time top root))
  | .ok _ => .error (.refused (.notDirectory c.path))

/-- The program: reads a request and carries it out. -/
def run (text : CodeString) (time : RunTime) (top : Node) : Except CommandError Printed :=
  match (do (← read text).answer time top : Except Stop Printed) with
  | .ok p => .ok p
  | .error s => s.printed

end Command

end SourceScan
