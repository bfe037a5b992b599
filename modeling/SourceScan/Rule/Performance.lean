import SourceScan.Rule.Basic

/-!
# The performance rules

Line rules for costly queries, memory that is not given back, costly loops and remote calls that
wait for one another. A search asks only whether a pattern occurs, so "three or more" is written as
three.
-/

namespace SourceScan.PerformanceRules

open Pattern CharSet

/-! ## Groups of rules -/

/-- A costly query. -/
def io (name message : String) (pattern : Pattern) : Rule where
  name := name
  category := .performance .io
  severity := .medium
  message := message
  description := "Database query optimization needed"
  suggestion := "Optimize query structure and indexing"
  pattern := pattern
  impact := some "Database performance impact"

/-- Memory that grows or is not given back. -/
def memory (name message : String) (pattern : Pattern) : Rule where
  name := name
  category := .performance .memory
  severity := .medium
  message := message
  description := "Potential memory leak or excessive allocation"
  suggestion := "Ensure proper cleanup and resource management"
  pattern := pattern
  impact := some "Memory usage impact"

/-- A costly computation. -/
def cpu (severity : Severity) (name message : String) (pattern : Pattern) : Rule where
  name := name
  category := .performance .cpu
  severity := severity
  message := message
  description := "CPU-intensive operation detected"
  suggestion := "Consider algorithm optimization or caching"
  pattern := pattern
  impact := some "CPU performance impact"

/-- Remote calls that wait for one another. -/
def network (name message : String) (pattern : Pattern) : Rule where
  name := name
  category := .performance .network
  severity := .medium
  message := message
  description := "Network performance could be optimized"
  suggestion := "Consider parallel requests or request batching"
  pattern := pattern
  impact := some "Network latency impact"

/-! ## Pieces that several patterns share -/

/-- A bracketed loop head and the brace that opens its body. -/
def loopHead : Pattern :=
  inOrder [lit "for", blanks, lit "(", run (compl (single ')')), lit ")", blanks,
    char (single '\x7b'), blanks]

/-- A call of `sort` without arguments. -/
def sortCall : Pattern := inOrder [lit ".sort(", blanks, lit ")"]

/-- A call chained to an earlier one, with anything for its argument. -/
def thenCall : Pattern := lit ").then"

/-! ## The groups -/

/-- Costly queries. -/
def queries : List Rule := [
  io "select_star" "SELECT * queries can be inefficient"
    (inOrder [caseless "SELECT", blanks1, lit "*", blanks1, caseless "FROM"]),
  io "leading_wildcard_like" "Leading wildcard LIKE queries are slow"
    (inOrder [caseless "LIKE", blanks1, char (ofList ['\x27', '\x22']), lit "%"]),
  io "multiple_joins" "Multiple JOINs can impact performance"
    (inOrder [boundary, caseless "JOIN", boundary, sameLine, boundary, caseless "JOIN", boundary])]

/-- Memory that grows or is not given back. -/
def allocations : List Rule := [
  memory "uncleared_timer" "Timer not cleared"
    (inOrder [boundary, lit "setInterval" ||| lit "setTimeout", boundary]),
  memory "unremoved_listener" "Event listener not removed"
    (inOrder [boundary, lit "addEventListener", boundary]),
  memory "large_array_allocation" "Large array allocation"
    (inOrder [lit "new", blanks1, lit "Array(", atLeast 4 .digit, lit ")"])]

/-- Costly computations. -/
def computations : List Rule := [
  cpu .high "triple_nested_loop" "Triple nested loop detected"
    (inOrder [loopHead, loopHead, lit "for"]),
  cpu .high "infinite_loop" "Infinite loop detected"
    (inOrder [lit "while", blanks, lit "(", blanks, lit "true", blanks, lit ")"] |||
      inOrder [lit "while", blanks1, lit "True", blanks, lit ":"]),
  cpu .high "repeated_sort" "Multiple sorts on same data"
    (inOrder [sortCall, sameLine, sortCall]),
  cpu .medium "dom_query_in_loop" "DOM query inside loop"
    (inOrder [boundary, lit "for" ||| lit "while", boundary, sameLine, lit "document.",
      lit "getElementById" ||| (lit "querySelector" ++ opt (lit "All")), blanks, lit "("]),
  cpu .low "chained_replace" "Multiple string replacements"
    (times 3 (lit ".replace(" ++ sameLine))]

/-- Remote calls that wait for one another. -/
def remoteCalls : List Rule := [
  network "chained_fetch" "Chained API calls"
    (inOrder [lit "fetch(", sameLine, thenCall, lit "(", sameLine, thenCall, lit "(", sameLine,
      thenCall]),
  network "sequential_requests" "Sequential API calls"
    (inOrder [lit "axios.get", sameLine, lit "await", sameLine, lit "axios.get"]),
  network "request_in_loop" "API calls in loop"
    (inOrder [lit "for", sameLine, lit "await", sameLine, lit "fetch"] |||
      inOrder [lit "for", sameLine, lit "await", sameLine, lit "axios"])]

end PerformanceRules

/-- The catalog of the performance analyzer. -/
def Catalog.performance : Catalog where
  name := "performance"
  rules :=
    PerformanceRules.queries ++ PerformanceRules.allocations ++ PerformanceRules.computations ++
      PerformanceRules.remoteCalls

end SourceScan
