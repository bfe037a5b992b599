import Mathlib.Data.List.Forall2
import SourceScan.Proofs.Text.ChangedLine

/-!
# Line feeds with a carriage return before them

`withEnds` writes the line feeds of a text in another way. With a carriage return before each of them the lines stay
the same but for the return at the end of some of them (`forall₂_lines_withReturns`), and what is computed from the
lines in their order stays the same if it does not depend on that return (`flatMap_zipIdx_congr`).

What a single return before a line feed leaves as it is, all of them together do (`withReturns_eq`).
-/

namespace SourceScan.Text

variable {α β γ : Type} {line line' : List Char} {c : Char}

/-- The text with each of its line feeds written as `ending`. -/
def withEnds (ending cs : List Char) : List Char := cs.flatMap fun c => if c = '\n' then ending else [c]

theorem withEnds_newline (ending cs : List Char) : withEnds ending ('\n' :: cs) = ending ++ withEnds ending cs := rfl

theorem withEnds_cons (ending cs : List Char) (hc : c ≠ '\n') :
    withEnds ending (c :: cs) = c :: withEnds ending cs := by
  unfold withEnds
  rw [List.flatMap_cons, if_neg hc]
  rfl

/-- The second line is the first one, or the first one with a carriage return at its end. -/
def ReturnAtEnd (line line' : List Char) : Prop := line' = line ∨ line' = line ++ ['\r']

theorem ReturnAtEnd.cons (c : Char) (h : ReturnAtEnd line line') : ReturnAtEnd (c :: line) (c :: line') :=
  h.imp (congrArg (c :: ·)) (congrArg (c :: ·))

/-- What a carriage return at the end of a line does not change. -/
theorem ReturnAtEnd.eq {f : List Char → α} (h : ReturnAtEnd line line') (hf : f (line ++ ['\r']) = f line) :
    f line' = f line := by
  rcases h with rfl | rfl
  · rfl
  · exact hf

/-- The carriage return at the end is what `dropReturn` takes off. -/
theorem ReturnAtEnd.dropReturn_eq (h : ReturnAtEnd line line') (hline : '\r' ∉ line) :
    dropReturn line' = dropReturn line := by
  refine h.eq ?_
  rw [dropReturn_eq_self hline, dropReturn, List.getLast?_concat, List.dropLast_concat]
  rfl

theorem lines_newline (cs : List Char) : lines ('\n' :: cs) = [] :: lines cs := rfl

theorem lines_cons (cs : List Char) (hc : c ≠ '\n') : lines (c :: cs) = (lines cs).modifyHead (c :: ·) := by
  rw [lines_eq_splitOn, lines_eq_splitOn]
  unfold List.splitOn
  rw [List.splitOnP_cons_eq_if_modifyHead, if_neg (by simpa using hc)]

/-- The lines of the text with carriage returns are those of the text, some with a return at the end. -/
theorem forall₂_lines_withReturns (cs : List Char) :
    List.Forall₂ ReturnAtEnd (lines cs) (lines (withEnds ['\r', '\n'] cs)) := by
  induction cs with
  | nil => exact .cons (Or.inl rfl) .nil
  | cons c cs ih =>
    by_cases hc : c = '\n'
    · subst hc
      rw [withEnds_newline, List.cons_append, lines_newline, lines_cons _ (by decide), List.singleton_append,
        lines_newline]
      exact .cons (Or.inr rfl) ih
    · rw [withEnds_cons _ cs hc, lines_cons _ hc, lines_cons _ hc]
      generalize lines cs = ls, lines (withEnds ['\r', '\n'] cs) = ls' at ih ⊢
      cases ih with
      | nil => exact .nil
      | cons hfirst hrest => exact .cons (hfirst.cons c) hrest

/-- What is put together from lines and their numbers is the same for related lines if each line's part is. -/
theorem flatMap_zipIdx_congr {R : α → β → Prop} {as : List α} {bs : List β} {f : α × Nat → List γ}
    {g : β × Nat → List γ} (h : List.Forall₂ R as bs)
    (hpart : ∀ a b i, a ∈ as → R a b → g (b, i) = f (a, i)) (n : Nat) :
    (bs.zipIdx n).flatMap g = (as.zipIdx n).flatMap f := by
  induction h generalizing n with
  | nil => rfl
  | @cons a b as bs hfirst _ ih =>
    rw [List.zipIdx_cons, List.zipIdx_cons, List.flatMap_cons, List.flatMap_cons,
      hpart a b n List.mem_cons_self hfirst, ih fun a b i hmem => hpart a b i (List.mem_cons_of_mem _ hmem)]

/-- What one carriage return before a line feed does not change, a return before each of them does not. -/
theorem withReturns_eq {f : List Char → α}
    (hf : ∀ before after, f (before ++ '\r' :: '\n' :: after) = f (before ++ '\n' :: after)) (cs : List Char) :
    f (withEnds ['\r', '\n'] cs) = f cs := by
  have hall : ∀ before, f (before ++ withEnds ['\r', '\n'] cs) = f (before ++ cs) := by
    induction cs with
    | nil => exact fun _ => rfl
    | cons c cs ih =>
      intro before
      by_cases hc : c = '\n'
      · subst hc
        rw [withEnds_newline, List.cons_append, List.singleton_append, hf, List.append_cons, ih, ← List.append_cons]
      · rw [withEnds_cons _ cs hc, List.append_cons, ih, ← List.append_cons]
  exact hall []

end SourceScan.Text
