import SourceScan.Advice
import SourceScan.Issue.Json

/-!
# Scan results

What one run of an analyzer gives: its findings in the order in which they were made, how many files
were looked at, the counts and the recommendations, and when the run was and how long it took.
-/

namespace SourceScan

/-- When a run started, as a text, and how many milliseconds it took. -/
structure RunTime where
  startedAt : String
  milliseconds : Int
  deriving Repr, DecidableEq

/-- The outcome of one run of an analyzer. -/
structure ScanResult where
  analyzer : Analyzer
  timestamp : CodeString
  issues : List Issue := []
  filesScanned : Int := 0
  durationMs : Int := 0
  summary : Summary := {}
  recommendations : List CodeString := []
  deriving Repr, DecidableEq

namespace ScanResult

/-- The result of a run, from its findings and the number of files looked at. -/
def ofIssues (a : Analyzer) (time : RunTime) (issues : List Issue) (files : Nat) : ScanResult :=
  let summary := Summary.ofIssues issues
  { analyzer := a
    timestamp := time.startedAt
    issues := issues
    filesScanned := files
    durationMs := time.milliseconds
    summary := summary
    recommendations := Advice.recommendations a summary issues }

/-- The name of the form. -/
def form : String := "ScanResult"

/-- Checks a JSON value. -/
def check : Json → Checked ScanResult :=
  Json.checkObject form fun ms =>
    ScanResult.mk
      <$> Json.required ms "analyzer" Analyzer.check
      <*> Json.required ms "timestamp" Json.checkString
      <*> Json.optional ms "issues" [] (Json.checkList .notTuple Issue.check)
      <*> Json.optional ms "files_scanned" 0 Json.checkInt
      <*> Json.optional ms "duration_ms" 0 Json.checkInt
      <*> Json.optional ms "summary" {} Summary.check
      <*> Json.optional ms "recommendations" [] (Json.checkList .notTuple Json.checkString)

/-- Reads a result. -/
def ofJson (v : Json) : Except Invalid ScanResult := (check v).toExcept form

/-- The result as a JSON object. -/
def toJson (r : ScanResult) : Json :=
  .object [
    ("analyzer", .text r.analyzer.name),
    ("timestamp", .str r.timestamp),
    ("issues", .arr (r.issues.map Issue.toJson)),
    ("files_scanned", .int r.filesScanned),
    ("duration_ms", .int r.durationMs),
    ("summary", r.summary.toJson),
    ("recommendations", .arr (r.recommendations.map .str))]

end ScanResult

end SourceScan
