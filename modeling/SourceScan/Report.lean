import SourceScan.ScanResult

/-!
# Reports

A scan result as plain text: the counts, the first findings, how many more there are, and the
recommendations. How many findings are shown is an integer: a negative one leaves that many off the
end.

Numbers are written whatever their length. The program itself writes none of more than
`IntegerText.maxDigits` digits; where it would have to, it ends in an error.
-/

namespace SourceScan.Report

/-- How many findings a report shows unless it is told otherwise. -/
def standardShown : Int := 10

/-- The title of a report. -/
def title : Analyzer → String
  | .security => "Security Scan Results"
  | .performance => "Performance Analysis Results"

/-- Where a finding is: the file, and the line if there is one other than zero. -/
def location (file : CodeString) (line : Option Int) : CodeString :=
  match line with
  | some n => if n == 0 then file else file ++ CodeString.ofString (":" ++ toString n)
  | none => file

/-- The first `n` of a list, or all but the last `-n` if `n` is negative. -/
def firstOf {α : Type} (n : Int) (xs : List α) : List α :=
  if 0 ≤ n then xs.take n.toNat else xs.take (xs.length - n.natAbs)

/-- The lines on one finding. -/
def issueLines (i : Issue) : List CodeString := [
  CodeString.ofString ("  [" ++ i.severity.title ++ "] " ++ i.category.name ++ ": " ++ i.message),
  CodeString.ofString "    File: " ++ location i.file (i.line.map fun n => (n : Int)),
  CodeString.ofString ("    " ++ i.suggestion)]

/-- The lines on the findings; none if there are none. How many remain is written whatever the length of the number, also
beyond `IntegerText.maxDigits` digits, which only a `shown` far below zero leads to. -/
def findingLines (shown : Int) (issues : List Issue) : List CodeString :=
  if issues.isEmpty then []
  else
    let remaining := (issues.length : Int) - shown
    let more := CodeString.ofString ("  ... and " ++ toString remaining ++ " more issues")
    CodeString.ofString "Top Issues:" :: (firstOf shown issues).flatMap issueLines ++
      (if 0 < remaining then [more] else []) ++ [[]]

/-- The lines on the recommendations; none if there are none. -/
def adviceLines (recommendations : List CodeString) : List CodeString :=
  if recommendations.isEmpty then []
  else "Recommendations:" :: recommendations.map (CodeString.ofString "  - " ++ ·)

/-- The lines on the run and the counts. The counts of a result are integers of any length, and they are written also
beyond `IntegerText.maxDigits` digits. -/
def headLines (r : ScanResult) : List String := [
  title r.analyzer,
  String.ofList (List.replicate (title r.analyzer).length '='),
  "Scanned " ++ toString r.filesScanned ++ " files in " ++ toString r.durationMs ++ "ms",
  "",
  "Issues Summary:",
  "  Critical: " ++ toString r.summary.critical,
  "  High:     " ++ toString r.summary.high,
  "  Medium:   " ++ toString r.summary.medium,
  "  Low:      " ++ toString r.summary.low,
  "  Total:    " ++ toString r.summary.total,
  ""]

/-- The report on a result that shows `shown` findings. -/
def text (shown : Int) (r : ScanResult) : CodeString :=
  CodeString.join "\n" ((headLines r).map CodeString.ofString ++ findingLines shown r.issues ++
    adviceLines r.recommendations)

end SourceScan.Report
