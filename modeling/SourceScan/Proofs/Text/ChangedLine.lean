import SourceScan.Proofs.Text.Lines

/-!
# A text with one line changed

Lines without line feeds are the lines of the text that they make (`lines_joinLines`). So a change to one line
that brings no line feed into it leaves all other lines as they are, and in their places (`lines_changeLine`).
-/

namespace SourceScan.Text

variable {f : List Char → List Char}

/-- The lines as one text, with a line feed between them. -/
def joinLines (ls : List (List Char)) : List Char := ['\n'].intercalate ls

/-- The text with line `k`, counted from 0, changed; the text itself if it has no such line. -/
def changeLine (k : Nat) (f : List Char → List Char) (cs : List Char) : List Char :=
  joinLines ((lines cs).modify k f)

theorem splitAll_eq_splitOnP (cut : Char → Bool) (cs : List Char) : splitAll cut cs = cs.splitOnP cut := by
  induction cs with
  | nil => rfl
  | cons c cs ih =>
    rw [List.splitOnP_cons_eq_if_modifyHead, ← ih]
    simp only [splitAll, List.foldr_cons]
    split
    · rfl
    · split
      · next hpieces => rw [hpieces, List.modifyHead_cons]
      · next hpieces =>
        have hlength := length_splitAll cut cs
        rw [splitAll, hpieces] at hlength
        exact absurd hlength (Nat.succ_ne_zero _).symm

theorem lines_eq_splitOn (cs : List Char) : lines cs = cs.splitOn '\n' := splitAll_eq_splitOnP _ cs

theorem lines_joinLines {ls : List (List Char)} (hne : ls ≠ []) (h : ∀ line ∈ ls, '\n' ∉ line) :
    lines (joinLines ls) = ls := by
  rw [lines_eq_splitOn]
  exact List.splitOn_intercalate '\n' h hne

/-- A change that brings in no line feed changes the one line and nothing else. -/
theorem lines_changeLine (hf : ∀ line, '\n' ∉ line → '\n' ∉ f line) (k : Nat) (cs : List Char) :
    lines (changeLine k f cs) = (lines cs).modify k f := by
  refine lines_joinLines (fun hnil => ?_) fun line hline => ?_
  · have hlength := congrArg List.length hnil
    rw [List.length_modify, length_lines] at hlength
    exact absurd hlength (Nat.succ_ne_zero _)
  · obtain ⟨j, hj⟩ := List.mem_iff_getElem?.mp hline
    rw [List.getElem?_modify, Option.map_eq_map, Option.map_eq_some_iff] at hj
    obtain ⟨old, hold, rfl⟩ := hj
    have hnone := newline_not_mem_of_mem_lines (List.mem_of_getElem? hold)
    split
    · exact hf old hnone
    · exact hnone

end SourceScan.Text
