import SourceScan.Json.Reader
import SourceScan.Json.Checked

/-!
# Why a check ends early

A check answers with issues. Three things keep it from doing so: a file that is JSON and passes a
limit of the reader, a finding whose message would not be a text, and a size that no floating-point
number can hold once divided.
-/

namespace SourceScan

/-- Why a check has no answer. -/
inductive CheckError
  | limit (l : Json.Limit)
  | invalid (i : Invalid)
  | sizeOverflow
  deriving Repr, DecidableEq

/-- The text for a size that is too large. -/
def CheckError.sizeOverflowMessage : String := "integer division result too large for a float"

end SourceScan
