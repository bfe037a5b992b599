import SourceScan.Analyzer
import SourceScan.Summary

/-!
# Recommendations

What to do about the findings of a scan, in a fixed order: a word on critical findings, a word on many
severe ones, and a word on each category that is present and has one. A scan without findings gets a
word of praise and nothing else.
-/

namespace SourceScan.Advice

/-- The most findings of high severity that go without a word of their own. -/
def highThreshold : Int := 5

/-- The words on categories, in their order. -/
def byCategory : List (Category × String) := [
  (.performance .memory, "Memory optimization needed - review resource management"),
  (.performance .bundle, "Bundle size optimization needed - review dependencies"),
  (.performance .cpu, "CPU optimization needed - review algorithms"),
  (.security .secrets, "Rotate exposed credentials and move them to environment variables"),
  (.security .sqlInjection, "Switch string-built SQL to parameterized queries"),
  (.security .xss, "Sanitize output written to the DOM and avoid eval()"),
  (.security .weakCrypto,
    "Replace weak hashing, ciphers and random sources with modern primitives")]

/-- The word of praise of an analyzer. -/
def praise : Analyzer → String
  | .security => "No security issues detected - good job!"
  | .performance => "No major performance issues detected - good job!"

/-- The word on critical findings, with the name of the analyzer. -/
def critical (analyzer : CodeString) : CodeString :=
  CodeString.ofString "Critical " ++ analyzer ++
    CodeString.ofString " issues found - immediate attention required"

/-- The word on many severe findings. -/
def manyHigh : String := "Multiple high-impact issues detected - prioritize optimization"

/-- The words on findings, for a summary that has some. -/
def onFindings (analyzer : CodeString) (summary : Summary) (issues : List Issue) :
    List CodeString :=
  (if 0 < summary.critical then [critical analyzer] else []) ++
    (if highThreshold < summary.high then [CodeString.ofString manyHigh] else []) ++
    (byCategory.filter fun (c, _) => issues.any (·.category == c)).map fun (_, word) => CodeString.ofString word

/-- The recommendations under the name of an analyzer; a name that is none has no word of praise, and
where one is due the answer is the name in quotes. -/
def forName (analyzer : CodeString) (summary : Summary) (issues : List Issue) :
    Except String (List CodeString) :=
  if summary.total == 0 then
    match analyzer.toString?.bind Analyzer.ofName? with
    | some a => .ok [praise a]
    | none => .error (Text.quoted analyzer)
  else .ok (onFindings analyzer summary issues)

/-- The recommendations of an analyzer. -/
def recommendations (a : Analyzer) (summary : Summary) (issues : List Issue) :
    List CodeString :=
  if summary.total == 0 then [praise a] else onFindings a.name summary issues

end SourceScan.Advice
