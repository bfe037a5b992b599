import SourceScan.Issue.Basic
import SourceScan.Json.Checked
import SourceScan.Json.Literal

/-!
# Issues as JSON

An issue is written as an object with all its members, and read from one in which those with a
default may be left out. A line that is given is at least 1; message and suggestion are not empty.

An issue that a check makes has to keep the same rules, and is looked over before it counts (`vet`).
-/

namespace SourceScan

/-- Checks a severity. -/
def Severity.check : Json → Checked Severity :=
  Json.checkName (.notMember (Severity.all.map Severity.name)) Severity.ofName?

/-- The level that a value names, or what is wrong with the value. -/
def Severity.ofJson (v : Json) : Except String Severity :=
  match v.text?.bind Severity.ofName? with
  | some level => .ok level
  | none => .error (v.literal ++ " is not a valid Severity")

/-- Checks a category. A value that is none fails as a security category and as a performance
category, and both failures are told. -/
def Category.check (v : Json) : Checked Category :=
  let named (kind : String) (all : List String) : Checked Category :=
    (Json.checkName (.notMember all) Category.ofName? v).under (.member kind)
  match named "str-enum[SecurityCategory]" (SecurityCategory.all.map SecurityCategory.name),
    named "str-enum[PerformanceCategory]" (PerformanceCategory.all.map PerformanceCategory.name) with
  | .bad ps, .bad qs => .bad (ps ++ qs)
  | first, _ => first

namespace Issue

/-- The name of the form. -/
def form : String := "Issue"

/-- Checks a line number. -/
def checkLine : Json → Checked (Option Nat) :=
  Json.checkOption fun v => (Json.checkIntFrom 1 v).map Int.toNat

/-- Checks a JSON value. -/
def check : Json → Checked Issue :=
  Json.checkObject form fun ms =>
    Issue.mk
      <$> Json.required ms "category" Category.check
      <*> Json.required ms "severity" Severity.check
      <*> Json.required ms "file" Json.checkString
      <*> Json.optional ms "line" none checkLine
      <*> Json.required ms "message" Json.checkSentence
      <*> Json.optional ms "description" [] Json.checkString
      <*> Json.required ms "suggestion" Json.checkSentence
      <*> Json.optional ms "rule" [] Json.checkString
      <*> Json.optional ms "estimated_impact" none (Json.checkOption Json.checkString)

/-- Reads an issue. -/
def ofJson (v : Json) : Except Invalid Issue := (check v).toExcept form

/-- What is wrong with an issue, member by member. -/
def problems (i : Issue) : List Problem :=
  (if i.line == some 0 then [⟨[.member "line"], .below 1⟩] else []) ++
  (if i.message == "" then [⟨[.member "message"], .emptyString⟩] else []) ++
  (if i.suggestion == "" then [⟨[.member "suggestion"], .emptyString⟩] else [])

/-- The issue, if nothing is wrong with it. -/
def vet (i : Issue) : Except Invalid Issue :=
  match i.problems with
  | [] => .ok i
  | ps => .error ⟨form, ps⟩

/-- The issue as a JSON object. -/
def toJson (i : Issue) : Json :=
  .object [
    ("category", .text i.category.name),
    ("severity", .text i.severity.name),
    ("file", .str i.file),
    ("line", .ofNat? i.line),
    ("message", .text i.message),
    ("description", .str i.description),
    ("suggestion", .text i.suggestion),
    ("rule", .str i.rule),
    ("estimated_impact", .ofString? i.impact)]

/-- The outcome for an issue whose message is not a text. -/
def brokenMessage : Invalid := ⟨form, [⟨[.member "message"], .brokenString⟩]⟩

end Issue

end SourceScan
