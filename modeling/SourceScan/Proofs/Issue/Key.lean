import Mathlib.Data.List.Nodup
import SourceScan.Issue.Basic
import SourceScan.Proofs.Text.CodeString

/-!
# What tells issues apart

An issue is told from the others of a scan by its file, its line, its rule and its message (`Issue.key`).
Lists of issues that are told apart stay so when they are put together, if no two of them share a key: as
those of rules with different names do not (`key_ne_of_ruleIn`). A check that has one finding at most
(`AtMostOne`) has nothing to be told apart.
-/

namespace SourceScan

/-- What tells an issue from the others of a scan. -/
def Issue.key (i : Issue) : CodeString × Option Nat × CodeString × String :=
  (i.file, i.line, i.rule, i.message)

/-- The issue is of one of the rules. -/
def Issue.RuleIn (names : List String) (i : Issue) : Prop :=
  ∃ name ∈ names, i.rule = CodeString.ofString name

/-- There is one issue at most, and it is of the rule. -/
def AtMostOne (rule : String) (l : List Issue) : Prop :=
  l = [] ∨ ∃ i, l = [i] ∧ i.rule = CodeString.ofString rule

section Lists

variable {l m : List Issue} {i j : Issue} {names others : List String} {rule : String}

theorem Issue.RuleIn.mono (hi : i.RuleIn names) (h : names ⊆ others) : i.RuleIn others := by
  obtain ⟨name, hname, hrule⟩ := hi
  exact ⟨name, h hname, hrule⟩

theorem rule_ne_of_ruleIn (h : names.Disjoint others) (hi : i.RuleIn names) (hj : j.RuleIn others) :
    i.rule ≠ j.rule := by
  intro hrule
  obtain ⟨name, hname, hi⟩ := hi
  obtain ⟨other, hother, hj⟩ := hj
  rw [hi, hj] at hrule
  rw [CodeString.ofString_injective hrule] at hname
  exact h hname hother

/-- Issues of rules with different names are told apart. -/
theorem key_ne_of_ruleIn (h : names.Disjoint others) (hi : i.RuleIn names) (hj : j.RuleIn others) :
    i.key ≠ j.key :=
  fun heq => rule_ne_of_ruleIn h hi hj (congrArg (·.2.2.1) heq)

theorem nodup_key_append (hl : (l.map Issue.key).Nodup) (hm : (m.map Issue.key).Nodup)
    (hne : ∀ i ∈ l, ∀ j ∈ m, i.key ≠ j.key) : ((l ++ m).map Issue.key).Nodup := by
  rw [List.map_append]
  refine List.nodup_append.mpr ⟨hl, hm, ?_⟩
  intro k hk k' hk'
  obtain ⟨i, hi, rfl⟩ := List.mem_map.mp hk
  obtain ⟨j, hj, rfl⟩ := List.mem_map.mp hk'
  exact hne i hi j hj

/-- Findings of several places are told apart if those of each place are and no two places share one. -/
theorem nodup_key_flatMap {α : Type} {xs : List α} {f : α → List Issue}
    (hown : ∀ x ∈ xs, ((f x).map Issue.key).Nodup)
    (hne : xs.Pairwise fun x y => ∀ i ∈ f x, ∀ j ∈ f y, i.key ≠ j.key) :
    ((xs.flatMap f).map Issue.key).Nodup := by
  rw [List.map_flatMap]
  refine List.nodup_flatMap.mpr ⟨hown, hne.imp ?_⟩
  intro x y hxy k hk hk'
  obtain ⟨i, hi, rfl⟩ := List.mem_map.mp hk
  obtain ⟨j, hj, heq⟩ := List.mem_map.mp hk'
  exact hxy i hi j hj heq.symm

theorem atMostOne_ite {c : Prop} [Decidable c] (h : i.rule = CodeString.ofString rule) :
    AtMostOne rule (if c then [i] else []) := by
  by_cases hc : c
  · rw [if_pos hc]
    exact Or.inr ⟨i, rfl, h⟩
  · rw [if_neg hc]
    exact Or.inl rfl

theorem AtMostOne.nodup_key (h : AtMostOne rule l) : (l.map Issue.key).Nodup := by
  rcases h with rfl | ⟨i, rfl, _⟩
  · exact List.nodup_nil
  · exact List.nodup_singleton _

theorem AtMostOne.ruleIn (h : AtMostOne rule l) (hi : i ∈ l) : i.RuleIn [rule] := by
  rcases h with rfl | ⟨j, rfl, hj⟩
  · cases hi
  · rw [List.mem_singleton.mp hi]
    exact ⟨rule, List.mem_singleton_self rule, hj⟩

end Lists

end SourceScan
