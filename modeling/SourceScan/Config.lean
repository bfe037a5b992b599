import SourceScan.Json.Checked

/-!
# Configuration

The thresholds and filters of a scan. Every threshold is exclusive: a value is reported when it
exceeds it. A configuration is read from a JSON object in which every member may be left out.
-/

namespace SourceScan

/-- A mebibyte. -/
def mebibyte : Int := 1024 * 1024

/-- Runtime dependencies known to add much weight to a bundle. -/
def heavyDependencies : List String :=
  ["lodash", "moment", "rxjs", "firebase", "aws-sdk", "electron", "puppeteer", "selenium-webdriver"]

/-- The options of both analyzers. -/
structure Config where
  /-- Directories to pass over besides those of the analyzer. -/
  extraExcludeDirs : List CodeString := []
  /-- How many levels below the root are entered; `none` is all of them. -/
  maxDepth : Option Int := none
  largeFileBytes : Int := mebibyte
  criticalFileBytes : Int := 5 * mebibyte
  complexityHigh : Int := 15
  complexityCritical : Int := 30
  functionLengthMedium : Int := 50
  functionLengthHigh : Int := 100
  heavyDependencies : List CodeString := SourceScan.heavyDependencies.map CodeString.ofString
  maxDependencies : Int := 20
  deriving Repr, DecidableEq

namespace Config

/-- The name of the form. -/
def form : String := "AnalyzerConfig"

/-- Checks a JSON value. -/
def check : Json → Checked Config :=
  let standard : Config := {}
  Json.checkObject form fun ms =>
    Config.mk
      <$> Json.optional ms "extra_exclude_dirs" standard.extraExcludeDirs
        (Json.checkList .notList Json.checkString)
      <*> Json.optional ms "max_depth" standard.maxDepth (Json.checkOption (Json.checkIntFrom 0))
      <*> Json.optional ms "large_file_bytes" standard.largeFileBytes Json.checkInt
      <*> Json.optional ms "critical_file_bytes" standard.criticalFileBytes Json.checkInt
      <*> Json.optional ms "complexity_high" standard.complexityHigh Json.checkInt
      <*> Json.optional ms "complexity_critical" standard.complexityCritical Json.checkInt
      <*> Json.optional ms "function_length_medium" standard.functionLengthMedium Json.checkInt
      <*> Json.optional ms "function_length_high" standard.functionLengthHigh Json.checkInt
      <*> Json.optional ms "heavy_dependencies" standard.heavyDependencies
        (Json.checkList .notList Json.checkString)
      <*> Json.optional ms "max_dependencies" standard.maxDependencies Json.checkInt

/-- Reads a configuration. -/
def ofJson (v : Json) : Except Invalid Config := (check v).toExcept form

/-- The configuration as a JSON object. -/
def toJson (c : Config) : Json :=
  .object [
    ("extra_exclude_dirs", .arr (c.extraExcludeDirs.map .str)),
    ("max_depth", match c.maxDepth with | some n => .int n | none => .null),
    ("large_file_bytes", .int c.largeFileBytes),
    ("critical_file_bytes", .int c.criticalFileBytes),
    ("complexity_high", .int c.complexityHigh),
    ("complexity_critical", .int c.complexityCritical),
    ("function_length_medium", .int c.functionLengthMedium),
    ("function_length_high", .int c.functionLengthHigh),
    ("heavy_dependencies", .arr (c.heavyDependencies.map .str)),
    ("max_dependencies", .int c.maxDependencies)]

end Config

end SourceScan
