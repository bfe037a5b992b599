import SourceScan.Issue.Basic
import SourceScan.Json.Checked

/-!
# Counts by severity

How many findings of each severity a scan has, and how many in all. A summary is also read from JSON,
where it may hold any numbers.
-/

namespace SourceScan

/-- The number of findings of each severity, and of all. -/
structure Summary where
  critical : Int := 0
  high : Int := 0
  medium : Int := 0
  low : Int := 0
  total : Int := 0
  deriving Repr, DecidableEq

namespace Summary

/-- How many of the issues have a severity. -/
def count (issues : List Issue) (s : Severity) : Nat := issues.countP (·.severity == s)

/-- The counts of a list of issues; their sum is the total. -/
def ofIssues (issues : List Issue) : Summary where
  critical := count issues .critical
  high := count issues .high
  medium := count issues .medium
  low := count issues .low
  total := count issues .critical + count issues .high + count issues .medium + count issues .low

/-- The name of the form. -/
def form : String := "ScanSummary"

/-- Checks a JSON value. -/
def check : Json → Checked Summary :=
  Json.checkObject form fun ms =>
    Summary.mk
      <$> Json.optional ms "critical" 0 Json.checkInt
      <*> Json.optional ms "high" 0 Json.checkInt
      <*> Json.optional ms "medium" 0 Json.checkInt
      <*> Json.optional ms "low" 0 Json.checkInt
      <*> Json.optional ms "total_issues" 0 Json.checkInt

/-- Reads a summary. -/
def ofJson (v : Json) : Except Invalid Summary := (check v).toExcept form

/-- The summary as a JSON object. -/
def toJson (s : Summary) : Json :=
  .object [("critical", .int s.critical), ("high", .int s.high), ("medium", .int s.medium),
    ("low", .int s.low), ("total_issues", .int s.total)]

end Summary

end SourceScan
