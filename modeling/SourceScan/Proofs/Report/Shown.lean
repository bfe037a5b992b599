import Mathlib.Data.List.Infix
import SourceScan.Proofs.Number.Decimal
import SourceScan.Proofs.Text.CodeString
import SourceScan.Report

/-!
# What a report shows

A report shows the first findings of a result and announces how many more there are. `Shows` says which text that
is, for a number of findings shown and a number announced, and both can be told from the text (`Shows.unique`): after
the findings shown comes a line that no finding begins with. Of what the findings themselves say nothing is assumed,
so their texts may have lines of their own.

The two numbers come from different places, the one from cutting the list and the other from a difference
(`shows_text`). They make up the number of findings as long as the number asked for is not negative. A negative number
leaves findings off the end of the list and is then counted as findings that are left, on top of all there are.
-/

namespace SourceScan

namespace CodeString

variable {l : CodeString} {ls ms : List CodeString}

theorem join_cons (l : CodeString) (h : ls ≠ []) :
    join "\n" (l :: ls) = l ++ .scalar '\n' :: join "\n" ls := by
  match ls with
  | [] => exact absurd rfl h
  | m :: ms =>
    rw [join, List.intercalate_cons_cons, List.append_assoc]
    rfl

/-- What lines end with is told from the text of all of them. -/
theorem join_append_cancel (h : ls ≠ []) (h' : ms ≠ []) (front : List CodeString) :
    join "\n" (front ++ ls) = join "\n" (front ++ ms) ↔ join "\n" ls = join "\n" ms := by
  induction front with
  | nil => exact Iff.rfl
  | cons l front ih =>
    have hl : front ++ ls ≠ [] := List.append_ne_nil_of_right_ne_nil front h
    have hm : front ++ ms ≠ [] := List.append_ne_nil_of_right_ne_nil front h'
    rw [List.cons_append, List.cons_append, join_cons l hl, join_cons l hm, List.append_cancel_left_eq,
      List.cons.injEq, ih]
    exact and_iff_right rfl

/-- The text of some lines begins with the first of them. -/
theorem prefix_join (l : CodeString) (ls : List CodeString) : l <+: join "\n" (l :: ls) := by
  by_cases h : ls = []
  · rw [h, join, List.intercalate_singleton]
  · rw [join_cons l h]
    exact List.prefix_append l _

end CodeString

namespace Report

open CodeString

variable {r : ScanResult} {text : CodeString} {issues : List Issue} {advice : List CodeString}
  {count count' : Nat} {more more' : Option Int}

/-- The line that announces how many more findings there are. -/
def moreLine (remaining : Int) : CodeString := ofString ("  ... and " ++ toString remaining ++ " more issues")

/-- The lines behind the findings shown: how many more there are, if that is announced, and an empty one. -/
def closingLines (more : Option Int) : List CodeString := (more.map moreLine).toList ++ [[]]

/-- The report on a result with the first `count` of its findings and with `more` announced, if anything is. -/
def layOut (r : ScanResult) (count : Nat) (more : Option Int) : CodeString :=
  join "\n" ((headLines r).map ofString ++
    (if r.issues.isEmpty then []
      else ofString "Top Issues:" :: (r.issues.take count).flatMap issueLines ++ closingLines more) ++
    adviceLines r.recommendations)

/-- The text is a report on the result that shows the first `count` of its findings and announces `more`. -/
structure Shows (r : ScanResult) (text : CodeString) (count : Nat) (more : Option Int) : Prop where
  laidOut : text = layOut r count more
  available : count ≤ r.issues.length
  silent : r.issues = [] → more = none

/-! ## The numbers are told from the text -/

theorem closingLines_append_ne_nil (more : Option Int) (advice : List CodeString) :
    closingLines more ++ advice ≠ [] := by
  simp [closingLines]

theorem moreLine_injective {m n : Int} (h : moreLine m = moreLine n) : m = n := by
  have htext := ofString_injective h
  rw [String.append_left_inj, String.append_right_inj] at htext
  exact IntegerText.toString_injective htext

/-- The lines on a finding begin with a bracket after two blanks. -/
theorem prefix_issueLines (i : Issue) (ls : List CodeString) :
    ofString "  [" <+: join "\n" (issueLines i ++ ls) := by
  refine List.IsPrefix.trans ?_ (prefix_join _ _)
  simp only [ofString_append, List.append_assoc]
  exact List.prefix_append _ _

/-- What comes behind the findings shown does not begin like that. -/
theorem not_prefix_closingLines (more : Option Int) (advice : List CodeString) :
    ¬ofString "  [" <+: join "\n" (closingLines more ++ advice) := by
  intro h
  cases more with
  | none =>
    by_cases hadvice : advice = []
    · subst hadvice
      exact absurd h (by decide)
    · change _ <+: join "\n" ([] :: advice) at h
      rw [join_cons [] hadvice] at h
      exact absurd (List.cons_prefix_cons.mp h).1 (by decide)
  | some m =>
    have hline : ofString "  ... and " <+: moreLine m := by
      rw [moreLine, String.append_assoc, ofString_append]
      exact List.prefix_append _ _
    obtain ⟨rest, hrest⟩ := hline.trans (prefix_join (moreLine m) ([] :: advice))
    change _ <+: join "\n" (moreLine m :: [] :: advice) at h
    rw [← hrest] at h
    have htake := List.prefix_iff_eq_take.mp h
    rw [List.take_append_of_le_length (by decide)] at htake
    exact absurd htake (by decide)

/-- The number announced is told from what comes behind the findings shown. -/
theorem eq_of_join_closingLines (h : join "\n" (closingLines more ++ advice) = join "\n" (closingLines more' ++ advice)) :
    more = more' := by
  have hsome : ∀ m, join "\n" (closingLines (some m) ++ advice) =
      moreLine m ++ .scalar '\n' :: join "\n" (closingLines none ++ advice) := fun m =>
    join_cons (moreLine m) (closingLines_append_ne_nil none advice)
  have hlonger : ∀ m, join "\n" (closingLines none ++ advice) ≠ join "\n" (closingLines (some m) ++ advice) := by
    intro m heq
    have hlength := congrArg List.length heq
    rw [hsome, List.length_append, List.length_cons] at hlength
    omega
  cases more with
  | none =>
    cases more' with
    | none => rfl
    | some m => exact absurd h (hlonger m)
  | some m =>
    cases more' with
    | none => exact absurd h.symm (hlonger m)
    | some m' =>
      rw [hsome, hsome, List.append_cancel_right_eq] at h
      rw [moreLine_injective h]

/-- Both numbers are told from the lines on the findings and those behind them. -/
theorem eq_of_join_findings (hcount : count ≤ issues.length) (hcount' : count' ≤ issues.length)
    (h : join "\n" ((issues.take count).flatMap issueLines ++ (closingLines more ++ advice)) =
      join "\n" ((issues.take count').flatMap issueLines ++ (closingLines more' ++ advice))) :
    count = count' ∧ more = more' := by
  induction issues generalizing count count' with
  | nil =>
    obtain rfl := Nat.le_zero.mp hcount
    obtain rfl := Nat.le_zero.mp hcount'
    exact ⟨rfl, eq_of_join_closingLines h⟩
  | cons i issues ih =>
    -- A finding that one text shows and the other does not would begin like the line behind the findings.
    cases count with
    | zero =>
      cases count' with
      | zero => exact ⟨rfl, eq_of_join_closingLines h⟩
      | succ count' =>
        rw [List.take_succ_cons, List.flatMap_cons, List.append_assoc] at h
        exact absurd (h ▸ prefix_issueLines i _) (not_prefix_closingLines more advice)
    | succ count =>
      rw [List.take_succ_cons, List.flatMap_cons, List.append_assoc] at h
      cases count' with
      | zero => exact absurd (h ▸ prefix_issueLines i _) (not_prefix_closingLines more' advice)
      | succ count' =>
        rw [List.take_succ_cons, List.flatMap_cons, List.append_assoc, join_append_cancel
          (List.append_ne_nil_of_right_ne_nil _ (closingLines_append_ne_nil more advice))
          (List.append_ne_nil_of_right_ne_nil _ (closingLines_append_ne_nil more' advice))] at h
        obtain ⟨rfl, hmore⟩ := ih (Nat.le_of_succ_le_succ hcount) (Nat.le_of_succ_le_succ hcount') h
        exact ⟨rfl, hmore⟩

/-- A text shows one number of findings and announces one. -/
theorem Shows.unique (h : Shows r text count more) (h' : Shows r text count' more') :
    count = count' ∧ more = more' := by
  by_cases hissues : r.issues = []
  · have hnone := h.available
    have hnone' := h'.available
    rw [hissues] at hnone hnone'
    exact ⟨(Nat.le_zero.mp hnone).trans (Nat.le_zero.mp hnone').symm,
      (h.silent hissues).trans (h'.silent hissues).symm⟩
  · have htext := h.laidOut.symm.trans h'.laidOut
    have hempty : r.issues.isEmpty = false := List.isEmpty_eq_false_iff.mpr hissues
    simp only [layOut, hempty, Bool.false_eq_true, if_false, List.cons_append, List.append_assoc] at htext
    rw [join_append_cancel (List.cons_ne_nil _ _) (List.cons_ne_nil _ _)] at htext
    exact eq_of_join_findings h.available h'.available
      ((join_append_cancel (List.append_ne_nil_of_right_ne_nil _ (closingLines_append_ne_nil more _))
        (List.append_ne_nil_of_right_ne_nil _ (closingLines_append_ne_nil more' _)) [ofString "Top Issues:"]).mp htext)

/-! ## The numbers -/

/-- How many of `total` findings are shown if `n` are asked for. -/
def countShown (n : Int) (total : Nat) : Nat := if 0 ≤ n then min n.toNat total else total - n.natAbs

theorem firstOf_eq_take (n : Int) (issues : List Issue) :
    firstOf n issues = issues.take (countShown n issues.length) := by
  rw [firstOf, countShown]
  split
  · exact List.take_eq_take_min
  · rfl

theorem countShown_le (n : Int) (total : Nat) : countShown n total ≤ total := by
  rw [countShown]
  split <;> omega

/-- The number announced if `n` of `total` findings are asked for. -/
def announced (n : Int) (total : Nat) : Option Int :=
  if total ≠ 0 ∧ 0 < (total : Int) - n then some (total - n) else none

theorem findingLines_eq (n : Int) (issues : List Issue) :
    findingLines n issues = if issues.isEmpty then []
      else ofString "Top Issues:" :: (issues.take (countShown n issues.length)).flatMap issueLines ++
        closingLines (announced n issues.length) := by
  rw [findingLines]
  by_cases hempty : issues.isEmpty = true
  · rw [if_pos hempty, if_pos hempty]
  · have hlength : issues.length ≠ 0 := fun h =>
      hempty (List.isEmpty_iff.mpr (List.eq_nil_of_length_eq_zero h))
    rw [if_neg hempty, if_neg hempty, firstOf_eq_take, announced, closingLines]
    dsimp only
    by_cases hmore : 0 < (issues.length : Int) - n
    · rw [if_pos hmore, if_pos ⟨hlength, hmore⟩, List.append_assoc]
      rfl
    · rw [if_neg hmore, if_neg fun h => hmore h.2, List.append_assoc]
      rfl

theorem shows_text_announced (n : Int) (r : ScanResult) :
    Shows r (Report.text n r) (countShown n r.issues.length) (announced n r.issues.length) := by
  refine ⟨?_, countShown_le n _, fun h => ?_⟩
  · rw [Report.text, layOut, findingLines_eq]
  · rw [h, announced]
    rfl

/-- **What a report shows.** For every result and every number asked for, the report shows the first findings of the
result, in their order, one number of them, and announces one number of others or none. The two make up the number of
findings if the number asked for is not negative, or if there are no findings. Otherwise as many findings are left off
the end as were asked for below zero, and the number announced is larger than that of all findings. -/
theorem shows_text (n : Int) (r : ScanResult) :
    ∃ count more, (∀ c m, Shows r (Report.text n r) c m ↔ c = count ∧ m = more) ∧
      ((0 ≤ n ∨ r.issues = []) ∧ (count : Int) + more.getD 0 = r.issues.length ∨
        (n < 0 ∧ r.issues ≠ []) ∧ count = r.issues.length - n.natAbs ∧ more = some (r.issues.length - n) ∧
          (r.issues.length : Int) < more.getD 0) := by
  have hshows := shows_text_announced n r
  refine ⟨countShown n r.issues.length, announced n r.issues.length, fun c m => ⟨fun h => h.unique hshows, ?_⟩, ?_⟩
  · intro ⟨hc, hm⟩
    rw [hc, hm]
    exact hshows
  · by_cases hissues : r.issues = []
    · have hnone := countShown_le n r.issues.length
      rw [hissues] at hnone ⊢
      rw [announced, if_neg fun h => h.1 rfl]
      exact Or.inl ⟨Or.inr rfl, congrArg Nat.cast (Nat.le_zero.mp hnone)⟩
    · have hlength : r.issues.length ≠ 0 := fun h => hissues (List.eq_nil_of_length_eq_zero h)
      rw [countShown, announced]
      by_cases hn : 0 ≤ n
      · refine Or.inl ⟨Or.inl hn, ?_⟩
        rw [if_pos hn]
        split
        · rw [Option.getD_some]
          omega
        · rw [Option.getD_none]
          omega
      · rw [if_neg hn, if_pos ⟨hlength, by omega⟩, Option.getD_some]
        exact Or.inr ⟨⟨by omega, hissues⟩, rfl, rfl, by omega⟩

/-- A result with one finding. -/
def oneFinding : ScanResult where
  analyzer := .security
  timestamp := "2024-01-01T00:00:00+00:00"
  issues := [⟨.security .xss, .high, "a.js", some 1, "m", [], "s", [], none⟩]

/-- If the last finding is to be left off, the one finding is not shown, and two more are announced. -/
theorem shows_text_leavingOne :
    Shows oneFinding (Report.text (-1) oneFinding) 0 (some 2) ∧
      ((0 : Nat) : Int) + (some (2 : Int)).getD 0 ≠ oneFinding.issues.length :=
  ⟨shows_text_announced (-1) oneFinding, by decide⟩

end Report

end SourceScan
