import SourceScan.Issue.Severity
import SourceScan.Issue.Category
import SourceScan.Text.CodeString

/-!
# Issues

An issue is one finding of an analyzer: what it is, how serious it is, where it was found and what
to do about it. A finding about a whole file has no line.

The name of a file need not be a text, and findings read from elsewhere may have any strings in the
other parts that are only passed on; message and suggestion are texts.
-/

namespace SourceScan

/-- One finding. Lines are numbered from 1. -/
structure Issue where
  category : Category
  severity : Severity
  file : CodeString
  line : Option Nat := none
  message : String
  description : CodeString := []
  suggestion : String
  rule : CodeString := []
  impact : Option CodeString := none
  deriving Repr, DecidableEq

end SourceScan
