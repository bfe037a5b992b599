import SourceScan.Analyzer
import SourceScan.LineScan
import SourceScan.Proofs.Complexity.Joined
import SourceScan.Proofs.Function.LineEnds

/-!
# The analyses of a text with carriage returns

Whether lines end with a line feed or with a carriage return and a line feed makes no difference to the three
analyses of a text (`analyses_withReturns`): the issues of its lines, its score and its functions.

Only for the issues does it matter that the text has no carriage return of its own. One return is taken off the
end of a line before the rules are tried on it, and a second one would stay.
-/

namespace SourceScan

open Pattern

variable {text : List Char} {p : Pattern}

/-! ## The issues -/

theorem scanLines_withReturns (h : '\r' ∉ text) (catalog : Catalog) (file : CodeString) :
    scanLines catalog file (Text.withEnds ['\r', '\n'] text) = scanLines catalog file text := by
  unfold scanLines
  apply Text.flatMap_zipIdx_congr (Text.forall₂_lines_withReturns text)
  intro line line' i hmem hline
  show lineIssues _ file (i + 1) line' = lineIssues _ file (i + 1) line
  unfold lineIssues
  rw [hline.dropReturn_eq fun hreturn => h (Text.mem_of_mem_lines hmem hreturn)]

/-! ## The score -/

namespace Complexity

/-- No token begins with a line feed or ends with a carriage return, and in none of them is a carriage return
before a line feed in the way. -/
theorem ignoresReturn_of_mem_tokens (hp : p ∈ tokens) :
    p.ignoresReturn = true ∧ p.neverBegins '\n' = true ∧ p.neverEnds '\r' = true := by
  have hall : ∀ p ∈ tokens, p.ignoresReturn = true ∧ p.neverBegins '\n' = true ∧ p.neverEnds '\r' = true := by
    decide
  exact hall p hp

theorem score_withReturns (text : List Char) :
    score (Text.withEnds ['\r', '\n'] text).toArray = score text.toArray := by
  refine Text.withReturns_eq (f := fun text => score text.toArray) (fun before after => ?_) text
  have hcount : ∀ p ∈ tokens, p.count (before ++ '\r' :: '\n' :: after).toArray =
      p.count (before ++ '\n' :: after).toArray := by
    intro p hp
    obtain ⟨hignores, hbegins, hends⟩ := ignoresReturn_of_mem_tokens hp
    exact (returnAt_append before after).count_eq hignores hbegins hends fun _ => orderly_of_mem_tokens hp
  show score _ = score _
  unfold score
  apply List.foldl_ext
  intro n p hp
  rw [hcount p hp]

end Complexity

/-! ## All three -/

/-- **Line ends make no difference.** A text without carriage returns has the same issues with any catalog and
any file name, the same score, and in every language the same functions, with their names, lengths and first
lines, if each of its line feeds has a carriage return before it. -/
theorem analyses_withReturns (h : '\r' ∉ text) :
    (∀ catalog file, scanLines catalog file (Text.withEnds ['\r', '\n'] text) = scanLines catalog file text) ∧
      Complexity.score (Text.withEnds ['\r', '\n'] text).toArray = Complexity.score text.toArray ∧
      ∀ language,
        FunctionSpan.ofText language (Text.withEnds ['\r', '\n'] text) = FunctionSpan.ofText language text :=
  ⟨scanLines_withReturns h, Complexity.score_withReturns text,
    fun language => FunctionSpan.ofText_withReturns language text⟩

/-- A function with a branch that goes on over the end of a line. -/
def branchedText : List Char := "function f(a) \x7b\n  if\n  (a) exec(a)\n\x7d".toList

/-- The carriage return within the branch does not hide it, and the call is found on its line. -/
theorem analyses_withReturns_branched :
    '\r' ∉ branchedText ∧
      Text.withEnds ['\r', '\n'] branchedText = "function f(a) \x7b\r\n  if\r\n  (a) exec(a)\r\n\x7d".toList ∧
      (scanLines Analyzer.security.catalog "x.js" (Text.withEnds ['\r', '\n'] branchedText)).map (·.line) =
        [some 3] ∧
      Complexity.score (Text.withEnds ['\r', '\n'] branchedText).toArray = 2 ∧
      FunctionSpan.ofText .javascript (Text.withEnds ['\r', '\n'] branchedText) = [⟨"f", 4, 1⟩] := by
  have hnone : '\r' ∉ branchedText := by decide
  obtain ⟨hissues, hscore, hspans⟩ := analyses_withReturns hnone
  refine ⟨hnone, by decide, ?_, ?_, ?_⟩
  · rw [hissues]
    decide +kernel
  · rw [hscore]
    decide +kernel
  · rw [hspans]
    decide +kernel

end SourceScan
