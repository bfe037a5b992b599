/-!
# Severity

How serious a finding is: four levels in increasing order. `rank` gives the order as a number.
-/

namespace SourceScan

/-- The severity of a finding, `low` < `medium` < `high` < `critical`. -/
inductive Severity
  | low
  | medium
  | high
  | critical
  deriving Repr, DecidableEq

namespace Severity

/-- The levels in increasing order. -/
def all : List Severity := [low, medium, high, critical]

/-- The written name of a level. -/
def name : Severity → String
  | low => "low"
  | medium => "medium"
  | high => "high"
  | critical => "critical"

/-- The name in capitals, as a report shows it. -/
def title : Severity → String
  | low => "LOW"
  | medium => "MEDIUM"
  | high => "HIGH"
  | critical => "CRITICAL"

/-- The position of a level in the order, from 0. -/
def rank : Severity → Nat
  | low => 0
  | medium => 1
  | high => 2
  | critical => 3

/-- The level of a written name, if it is one. -/
def ofName? (s : String) : Option Severity := all.find? (·.name == s)

theorem ofName?_name (s : Severity) : ofName? s.name = some s := by cases s <;> decide

end Severity

end SourceScan
