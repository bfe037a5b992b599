import Mathlib.Data.List.Nodup
import SourceScan.Proofs.Text.CodeString
import SourceScan.Scan

/-!
# Counts and advice

The parts of a scan result say the same of its findings (`advice_of_scan`). The counts are those of the
findings. The advice is praise alone if nothing was found; otherwise it is taken from a fixed list of words
(`Advice.words`) in the order of the list, each word at most once, and a word is in it if and only if the
findings call for it (`Advice.Due`).

Counts and advice are made at the end of a run from the findings that there are then, so nothing is assumed
of the run: one that an error has cut short has a result like any other.
-/

namespace SourceScan

namespace Summary

/-- The number that a summary gives for a severity. -/
def ofSeverity (s : Summary) : Severity → Int
  | .critical => s.critical
  | .high => s.high
  | .medium => s.medium
  | .low => s.low

theorem ofSeverity_ofIssues (issues : List Issue) (s : Severity) :
    (ofIssues issues).ofSeverity s = issues.countP fun i => i.severity = s := by
  have hcount : count issues s = issues.countP fun i => i.severity = s :=
    List.countP_congr fun i _ => by simp
  rw [← hcount]
  cases s <;> rfl

/-- All findings are counted, each of them once. -/
theorem total_ofIssues (issues : List Issue) : (ofIssues issues).total = issues.length := by
  induction issues with
  | nil => rfl
  | cons i issues ih =>
    simp only [ofIssues, count, List.countP_cons, List.length_cons] at ih ⊢
    cases i.severity <;> simp <;> omega

end Summary

namespace Advice

variable {a : Analyzer} {issues : List Issue} {w : CodeString}

/-- The words on findings, in the order in which they are given. -/
def words (a : Analyzer) : List CodeString :=
  critical a.name :: CodeString.ofString manyHigh :: byCategory.map fun (_, word) => CodeString.ofString word

/-- The findings call for a word. -/
inductive Due (a : Analyzer) (issues : List Issue) : CodeString → Prop
  | critical {i : Issue} (hi : i ∈ issues) (h : i.severity = .critical) :
    Due a issues (Advice.critical a.name)
  | manyHigh (h : 5 < issues.countP fun i => i.severity = .high) :
    Due a issues (CodeString.ofString Advice.manyHigh)
  | category {i : Issue} {word : String} (hi : i ∈ issues) (h : (i.category, word) ∈ byCategory) :
    Due a issues (CodeString.ofString word)

/-- The words as texts. -/
def wordTexts (a : Analyzer) : List String :=
  ("Critical " ++ a.name ++ " issues found - immediate attention required") :: manyHigh ::
    byCategory.map Prod.snd

theorem words_eq (a : Analyzer) : words a = (wordTexts a).map CodeString.ofString := by
  simp only [words, wordTexts, critical, List.map_cons, List.map_map, CodeString.ofString_append]
  rfl

theorem nodup_words (a : Analyzer) : (words a).Nodup := by
  have htexts : (wordTexts a).Nodup := by cases a <;> simp [wordTexts, Analyzer.name, manyHigh, byCategory]
  rw [words_eq]
  exact htexts.map fun _ _ => CodeString.ofString_injective

theorem praise_not_mem_words (a : Analyzer) : CodeString.ofString (praise a) ∉ words a := by
  have htexts : praise a ∉ wordTexts a := by
    cases a <;> simp [wordTexts, Analyzer.name, manyHigh, byCategory, praise]
  rw [words_eq]
  intro hword
  obtain ⟨word, hword, heq⟩ := List.mem_map.mp hword
  rw [CodeString.ofString_injective heq] at hword
  exact htexts hword

/-- The words on findings keep the order of the list. -/
theorem onFindings_sublist (a : Analyzer) (summary : Summary) (issues : List Issue) :
    (onFindings a.name summary issues).Sublist (words a) := by
  have hif (p : Prop) [Decidable p] (word : CodeString) : (if p then [word] else []).Sublist [word] := by
    split
    · exact List.Sublist.refl _
    · exact List.nil_sublist _
  exact ((hif _ _).append (hif _ _)).append (List.filter_sublist.map _)

/-- Of the words on findings, those are given that the findings call for. -/
theorem mem_onFindings : w ∈ onFindings a.name (Summary.ofIssues issues) issues ↔ Due a issues w := by
  have hcritical := Summary.ofSeverity_ofIssues issues .critical
  have hhigh := Summary.ofSeverity_ofIssues issues .high
  simp only [Summary.ofSeverity] at hcritical hhigh
  simp only [onFindings, hcritical, hhigh, highThreshold, List.mem_append, List.mem_ite_nil_right,
    List.mem_singleton, List.mem_map, List.mem_filter, List.any_eq_true, beq_iff_eq]
  constructor
  · rintro ((⟨hpos, rfl⟩ | ⟨hmany, rfl⟩) | ⟨⟨c, word⟩, ⟨hword, i, hi, rfl⟩, rfl⟩)
    · obtain ⟨i, hi, h⟩ := List.countP_pos_iff.mp (Int.natCast_pos.mp hpos)
      exact .critical hi (of_decide_eq_true h)
    · exact .manyHigh (by omega)
    · exact .category hi hword
  · rintro (⟨hi, h⟩ | hmany | ⟨hi, hword⟩)
    · exact .inl (.inl ⟨Int.natCast_pos.mpr (List.countP_pos_iff.mpr ⟨_, hi, decide_eq_true h⟩), rfl⟩)
    · exact .inl (.inr ⟨by omega, rfl⟩)
    · exact .inr ⟨(_, _), ⟨hword, _, hi, rfl⟩, rfl⟩

/-- Praise is for a list without findings, and any finding calls for the words on findings. -/
theorem recommendations_ofIssues (a : Analyzer) (issues : List Issue) :
    recommendations a (Summary.ofIssues issues) issues =
      if issues = [] then [CodeString.ofString (praise a)]
      else onFindings a.name (Summary.ofIssues issues) issues := by
  have hnone : ((Summary.ofIssues issues).total == 0) = true ↔ issues = [] := by
    rw [Summary.total_ofIssues, beq_iff_eq, Int.natCast_eq_zero, List.length_eq_zero_iff]
  rw [recommendations]
  exact if_congr hnone rfl rfl

end Advice

/-- **The parts of a result agree.** For every tree, configuration and analyzer, and however the run ended:
the total is the number of findings and the sum of the four counts, and each count is the number of findings
of its severity. If nothing was found, the advice is the praise of the analyzer. Otherwise it is not; it is
then a part of the list of words, in its order and without repetition, and holds the words that the findings
call for. -/
theorem advice_of_scan (a : Analyzer) (config : Config) (time : RunTime) (top : Node) (root : Door) :
    let r := scan a config time top root
    (r.summary.total = r.issues.length ∧
      r.summary.total = r.summary.critical + r.summary.high + r.summary.medium + r.summary.low ∧
      ∀ s, r.summary.ofSeverity s = r.issues.countP fun i => i.severity = s) ∧
    ((r.issues = [] ∧ r.recommendations = [CodeString.ofString (Advice.praise a)]) ∨
      (r.issues ≠ [] ∧ r.recommendations ≠ [CodeString.ofString (Advice.praise a)] ∧
        r.recommendations.Sublist (Advice.words a) ∧ r.recommendations.Nodup ∧
        ∀ w, w ∈ r.recommendations ↔ Advice.Due a r.issues w)) := by
  intro r
  have hsummary : r.summary = Summary.ofIssues r.issues := rfl
  have hadvice : r.recommendations = _ := Advice.recommendations_ofIssues a r.issues
  refine ⟨⟨?_, ?_, fun s => ?_⟩, ?_⟩
  · rw [hsummary, Summary.total_ofIssues]
  · rw [hsummary]
    rfl
  · rw [hsummary, Summary.ofSeverity_ofIssues]
  · by_cases hnone : r.issues = []
    · rw [if_pos hnone] at hadvice
      exact .inl ⟨hnone, hadvice⟩
    · rw [if_neg hnone] at hadvice
      have hsub := Advice.onFindings_sublist a (Summary.ofIssues r.issues) r.issues
      rw [← hadvice] at hsub
      refine .inr ⟨hnone, fun hpraise => ?_, hsub, hsub.nodup (Advice.nodup_words a), fun w => ?_⟩
      · rw [hpraise] at hsub
        exact Advice.praise_not_mem_words a (List.singleton_sublist.mp hsub)
      · rw [hadvice]
        exact Advice.mem_onFindings

end SourceScan
