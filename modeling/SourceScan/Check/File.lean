import SourceScan.Check.Error
import SourceScan.Complexity
import SourceScan.Config
import SourceScan.Function.Span
import SourceScan.Issue.Basic

/-!
# Checks of whole files

Three findings that no single line gives: a file whose complexity exceeds a threshold, a function
that spans too many lines, and a file that is too large. Each has a second threshold above which it
is more severe.
-/

namespace SourceScan.FileCheck

/-- The finding on a file whose complexity score exceeds the threshold. -/
def complexity (config : Config) (file : CodeString) (text : List Char) : List Issue :=
  let score := Complexity.score text.toArray
  if (score : Int) ≤ config.complexityHigh then []
  else [{
    category := .performance .codeSmell
    severity := if config.complexityCritical < score then .critical else .high
    file := file
    message := "High cyclomatic complexity: " ++ toString score
    description := "Complex code is harder to understand and maintain"
    suggestion := "Refactor to reduce conditional complexity"
    rule := "aggregate_complexity"
    impact := some "Code quality and performance impact" }]

/-- The finding on a function that is too long. -/
def longFunction (config : Config) (file : CodeString) (f : FunctionSpan) : Issue where
  category := .performance .codeSmell
  severity := if config.functionLengthHigh < f.lines then .high else .medium
  file := file
  line := some f.startLine
  message := "Long function '" ++ f.name ++ "': " ++ toString f.lines ++ " lines"
  description := "Long functions are harder to maintain and test"
  suggestion := "Consider breaking into smaller functions"
  rule := "function_length"
  impact := some "Maintainability and performance impact"

/-- The findings on the functions of a file that span more lines than the threshold. -/
def functionLength (config : Config) (file : CodeString) (text : List Char) : List Issue :=
  match Language.ofFile? file with
  | none => []
  | some language =>
    ((FunctionSpan.ofText language text).filter fun f => config.functionLengthMedium < f.lines).map
      (longFunction config file)

/-- A size in units of 1024 bytes: the nearest floating-point number to the quotient, and the integer
nearest to that, a tie going to the even one both times. -/
def kibibytes? (size : Int) : Option Int :=
  (Binary64.ofRatio (size < 0) size.natAbs 1024).round?

/-- The finding on a file whose size in bytes exceeds the threshold. -/
def fileSize (config : Config) (file : CodeString) (size : Int) : Except CheckError (List Issue) :=
  if size ≤ config.largeFileBytes then .ok []
  else
    match kibibytes? size with
    | none => .error .sizeOverflow
    | some n => .ok [{
        category := .performance .bundle
        severity := if config.criticalFileBytes < size then .critical else .high
        file := file
        message := "Large file size: " ++ toString n ++ "KB"
        description := "Large files can slow down loading and compilation"
        suggestion := "Consider splitting into smaller modules or lazy loading"
        rule := "large_file"
        impact := some "Bundle size and load time impact" }]

end SourceScan.FileCheck
