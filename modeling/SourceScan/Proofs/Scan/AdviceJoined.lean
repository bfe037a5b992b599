import Mathlib.Data.List.Basic
import SourceScan.Proofs.Scan.Advice

/-!
# Counts and advice on joined lists

The counts of two lists of findings, one after the other, are those of the two added up (`Summary.ofIssues_append`),
and neither counts nor advice depend on the order of the findings. More findings bring more advice and take none
back: a word that the findings call for is still called for with others beside them, and its place among the words
stays (`Advice.onFindings_mono`). Only the praise for a list without findings goes with the first of them, and so a
list that has some is asked for in `advice_joined`.
-/

namespace SourceScan

namespace Summary

variable {a b : List Issue}

/-- Two summaries added up, count by count. -/
instance : Add Summary where
  add s t := ⟨s.critical + t.critical, s.high + t.high, s.medium + t.medium, s.low + t.low, s.total + t.total⟩

theorem count_append (a b : List Issue) (s : Severity) : count (a ++ b) s = count a s + count b s :=
  List.countP_append

theorem count_perm (h : a.Perm b) (s : Severity) : count a s = count b s := h.countP_eq _

/-- The counts of joined lists are the sums of their counts. -/
theorem ofIssues_append (a b : List Issue) : ofIssues (a ++ b) = ofIssues a + ofIssues b := by
  have htotal : (ofIssues (a ++ b)).total = (ofIssues a).total + (ofIssues b).total := by
    rw [total_ofIssues, total_ofIssues, total_ofIssues, List.length_append, Int.natCast_add]
  show ofIssues (a ++ b) = ⟨_, _, _, _, (ofIssues a).total + (ofIssues b).total⟩
  rw [← htotal]
  simp [ofIssues, count_append]

theorem ofIssues_perm (h : a.Perm b) : ofIssues a = ofIssues b := by
  simp only [ofIssues, count_perm h]

end Summary

namespace Advice

variable {name : CodeString} {s t : Summary} {a b : List Issue} {p q : Prop} [Decidable p] [Decidable q]

theorem singleton_ite_sublist (h : p → q) (w : CodeString) :
    (if p then [w] else []).Sublist (if q then [w] else []) := by
  split
  · next hp => rw [if_pos (h hp)]
  · exact List.nil_sublist _

/-- The order of the findings makes no difference to the words on them. -/
theorem onFindings_perm (h : a.Perm b) : onFindings name s a = onFindings name s b := by
  have hany : ∀ c, (a.any fun i => i.category == c) = b.any fun i => i.category == c := fun c => h.any_eq
  simp only [onFindings, hany]

/-- A list of findings that has what another has is given its words as well, in their order. -/
theorem onFindings_mono (hcritical : 0 < s.critical → 0 < t.critical)
    (hhigh : highThreshold < s.high → highThreshold < t.high) (hsubset : a ⊆ b) :
    (onFindings name s a).Sublist (onFindings name t b) := by
  have hcategory : ∀ c : Category × String, (a.any fun i => i.category == c.1) = true →
      (b.any fun i => i.category == c.1) = true := by
    intro c hfound
    obtain ⟨i, hi, hsame⟩ := List.any_eq_true.mp hfound
    exact List.any_eq_true.mpr ⟨i, hsubset hi, hsame⟩
  apply List.Sublist.append
  · exact (singleton_ite_sublist hcritical _).append (singleton_ite_sublist hhigh _)
  · exact (List.monotone_filter_right _ hcategory).map _

end Advice

/-- **Counts and advice of joined lists.** For all lists of findings and both analyzers: the counts of two lists
joined are the sums of their counts; the advice on a list is that on the same findings in any other order; and the
advice on a list that has findings is part of the advice on this list with more findings behind it, in the same
order. -/
theorem advice_joined (x : Analyzer) (a b : List Issue) :
    Summary.ofIssues (a ++ b) = Summary.ofIssues a + Summary.ofIssues b ∧
      (∀ a', a'.Perm a → Advice.recommendations x (Summary.ofIssues a') a' =
        Advice.recommendations x (Summary.ofIssues a) a) ∧
      (a ≠ [] → (Advice.recommendations x (Summary.ofIssues a) a).Sublist
        (Advice.recommendations x (Summary.ofIssues (a ++ b)) (a ++ b))) := by
  refine ⟨Summary.ofIssues_append a b, fun a' hperm => ?_, fun hne => ?_⟩
  · rw [Summary.ofIssues_perm hperm, Advice.recommendations, Advice.recommendations, Advice.onFindings_perm hperm]
  · have hboth : a ++ b ≠ [] := List.append_ne_nil_of_left_ne_nil hne b
    rw [Advice.recommendations_ofIssues, Advice.recommendations_ofIssues, if_neg hne, if_neg hboth]
    have hmore : ∀ s, Summary.count a s ≤ Summary.count (a ++ b) s := by
      intro s
      rw [Summary.count_append]
      exact Nat.le_add_right _ _
    have hcritical := hmore .critical
    have hhigh := hmore .high
    apply Advice.onFindings_mono
    · simp only [Summary.ofIssues]
      omega
    · simp only [Summary.ofIssues]
      omega
    · exact List.subset_append_left a b

/-- Two findings on a project, and a critical one behind them: the word on their kind stays, and the one on critical
findings comes before it. -/
theorem advice_joined_critical :
    let heavy := Requirements.heavyPackage "torch"
    let many := Requirements.tooMany 31
    let large := { heavy with severity := .critical }
    [many, heavy].Perm [heavy, many] ∧ [heavy, many] ≠ [] ∧
      Advice.recommendations .performance (Summary.ofIssues [many, heavy]) [many, heavy] =
        [CodeString.ofString "Bundle size optimization needed - review dependencies"] ∧
      [CodeString.ofString "Bundle size optimization needed - review dependencies"].Sublist
        (Advice.recommendations .performance (Summary.ofIssues [heavy, many, large]) [heavy, many, large]) := by
  intro heavy many large
  have hswap : [many, heavy].Perm [heavy, many] := .swap heavy many []
  have hne : [heavy, many] ≠ [] := List.cons_ne_nil _ _
  obtain ⟨_, horder, hmore⟩ := advice_joined .performance [heavy, many] [large]
  have hfirst : Advice.recommendations .performance (Summary.ofIssues [heavy, many]) [heavy, many] =
      [CodeString.ofString "Bundle size optimization needed - review dependencies"] := by
    decide +kernel
  exact ⟨hswap, hne, (horder _ hswap).trans hfirst, hfirst ▸ hmore hne⟩

end SourceScan
