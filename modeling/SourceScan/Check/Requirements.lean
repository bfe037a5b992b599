import SourceScan.Issue.Basic
import SourceScan.Text.Lines
import SourceScan.Text.Lower

/-!
# Lists of required packages

The checks of `requirements.txt`, which names one package to a line: too many packages, and packages
known to be heavy. Blank lines, comments and options are no requirements. The name of a package ends
at the first blank or the first sign of a version or an extra; case makes no difference.
-/

namespace SourceScan.Requirements

/-- The name of the file. -/
def fileName : String := "requirements.txt"

/-- Packages large enough to matter, in the order of their findings. -/
def heavyPackages : List String := ["tensorflow", "torch", "opencv-python", "scipy"]

/-- The most requirements that are no finding. -/
def maxRequirements : Nat := 30

/-- Whether a line without its margins is a requirement: it is not empty and no comment or option. -/
def isRequirement (line : List Char) : Bool :=
  match line.head? with
  | some c => c != '#' && c != '-'
  | none => false

/-- The requirements in a text. -/
def ofText (text : List Char) : List (List Char) :=
  ((Text.paragraphs text).map Text.strip).filter isRequirement

/-- Whether a character ends the name of a package. -/
def endsName (c : Char) : Bool := Text.isBlank c || "<>=!~;[".toList.contains c

/-- The name of the package that a requirement asks for, in lower case. -/
def packageName (requirement : List Char) : String :=
  String.ofList (Text.lowerChars (requirement.takeWhile fun c => !endsName c))

/-- The finding on the number of requirements. -/
def tooMany (count : Nat) : Issue where
  category := .performance .bundle
  severity := .medium
  file := fileName
  message := "Many Python dependencies: " ++ toString count
  description := "Many dependencies slow down installation and can cause conflicts"
  suggestion := "Review dependencies and remove unused ones"
  rule := "python_dependency_count"
  impact := some "Install time impact"

/-- The finding on a heavy package. -/
def heavyPackage (name : String) : Issue where
  category := .performance .bundle
  severity := .low
  file := fileName
  message := "Heavy Python package: " ++ name
  description := "Heavy packages increase installation time and memory usage"
  suggestion := "Check whether " ++ name ++ " is necessary or use a lighter alternative"
  rule := "heavy_python_package"
  impact := some "Install size and memory impact"

/-- The findings on a list of requirements. -/
def issues (text : List Char) : List Issue :=
  let requirements := ofText text
  let names := requirements.map packageName
  (if maxRequirements < requirements.length then [tooMany requirements.length] else []) ++
    (heavyPackages.filter names.contains).map heavyPackage

/-- The findings on the list in a text, if there is one. -/
def issuesIn : Option (List Char) → List Issue
  | some text => issues text
  | none => []

end SourceScan.Requirements
