import SourceScan.Complexity
import SourceScan.Proofs.Pattern.Pieces

/-!
# The score of two texts put together

Two texts with a line feed between them have no fewer branching tokens than they have apart
(`Complexity.score_append_newline`). A token that begins in the first text may end in the second, but a token
ends with the first bracket or colon that comes (`orderly_of_mem_tokens`), so it takes the place of one token of
the second text at most.

The score of the whole may be larger: a keyword that ends the first text may find its bracket in the second.
-/

namespace SourceScan.Complexity

open Pattern

variable {p : Pattern} {t : Array Char}

/-! ## The tokens -/

theorem nullable_of_mem_tokens (hp : p ∈ tokens) : p.nullable = false := by
  have hall : ∀ p ∈ tokens, p.nullable = false := by decide
  exact hall p hp

/-- No token ends before one that begins earlier. -/
theorem orderly_of_mem_tokens (hp : p ∈ tokens) : Orderly t p := by
  -- All tokens but the last end with the first bracket or colon from where they begin.
  have hclosed : ∀ p ∈ tokens, p.closedBy (.single '(') = true ∨ p.closedBy (.single ':') = true ∨
      p = (lit "&&" ||| lit "||") := by decide
  rcases hclosed p hp with hbracket | hcolon | rfl
  · exact orderly_of_closedBy hbracket
  · exact orderly_of_closedBy hcolon
  · -- The last token has two characters wherever it begins.
    have hlength : ∀ {i j : Nat}, Spans t (lit "&&" ||| lit "||") i j → j = i + 2 :=
      fun h => h.elim (fun h => (spans_lit_iff.mp h).2) fun h => (spans_lit_iff.mp h).2
    intro i j i' j' h h' hle _
    rw [hlength h, hlength h']
    exact Nat.add_le_add_right hle 2

/-- A token is a token in a longer text as well. -/
theorem lasting_of_mem_tokens (hp : p ∈ tokens) : p.lasting (some '\n') = true ∧ p.lasting none = true := by
  have hall : ∀ p ∈ tokens, p.lasting (some '\n') = true ∧ p.lasting none = true := by decide
  exact hall p hp

/-! ## The score -/

/-- Where each number of a third count is at least those of two others together, the third count stays ahead. -/
theorem foldl_add_foldl_le {ps : List Pattern} {a b c : Pattern → Nat} {x y z : Nat}
    (hcount : ∀ p ∈ ps, a p + b p ≤ c p) (hstart : x + y ≤ z + 1) :
    ps.foldl (fun n p => n + a p) x + ps.foldl (fun n p => n + b p) y ≤ ps.foldl (fun n p => n + c p) z + 1 := by
  induction ps generalizing x y z with
  | nil => exact hstart
  | cons p ps ih =>
    obtain ⟨hfirst, hrest⟩ := List.forall_mem_cons.mp hcount
    apply ih hrest
    show x + a p + (y + b p) ≤ z + c p + 1
    omega

/-- Two texts with a line feed between them have no fewer tokens of a kind than they have apart. -/
theorem count_append_newline (hp : p ∈ tokens) (before after : List Char) :
    p.count before.toArray + p.count after.toArray ≤ p.count (before ++ '\n' :: after).toArray := by
  have hword : Text.isWord '\n' = false := by decide
  have hfirst : Inside (before ++ '\n' :: after).toArray before.toArray 0 (some '\n') :=
    Inside.of_append [] before ('\n' :: after) rfl hword
  have hsecond : Inside (before ++ '\n' :: after).toArray after.toArray (before.length + 1) none := by
    have hlast : (before ++ ['\n']).getLast?.any Text.isWord = false := by
      rw [List.getLast?_concat]
      exact hword
    have hinside := Inside.of_append (before ++ ['\n']) after [] hlast rfl
    rw [List.append_nil, List.append_assoc, List.length_append] at hinside
    exact hinside
  obtain ⟨hlasting, hlasting'⟩ := lasting_of_mem_tokens hp
  refine count_add_count_le (nullable_of_mem_tokens hp) (orderly_of_mem_tokens hp) hfirst hsecond hlasting hlasting' ?_
  rw [List.size_toArray, Nat.zero_add]
  exact Nat.le_succ _

/-- **No branch is lost where two texts meet.** With a line feed between them they have as many tokens of each
kind as they have apart, or more; so their scores together, less the one that each score begins with, are no
more than the score of both. -/
theorem score_append_newline (before after : List Char) :
    (∀ token ∈ tokens, token.count before.toArray + token.count after.toArray ≤
      token.count (before ++ '\n' :: after).toArray) ∧
    score before.toArray + score after.toArray ≤ score (before ++ '\n' :: after).toArray + 1 := by
  have hcount := fun token htoken => count_append_newline (p := token) htoken before after
  exact ⟨hcount, foldl_add_foldl_le hcount (Nat.le_refl 2)⟩

/-- A label that begins in the first text takes the place of one label of the second, and of no more: the score of
the whole is the least that the law allows. -/
theorem score_append_newline_label :
    tokens[5] ∈ tokens ∧ tokens[5].count "case".toList.toArray = 0 ∧
      tokens[5].count "case".toList.toArray + tokens[5].count "case x: case y:".toList.toArray ≤
        tokens[5].count ("case".toList ++ '\n' :: "case x: case y:".toList).toArray ∧
      score "case".toList.toArray + score "case x: case y:".toList.toArray ≤
        score ("case".toList ++ '\n' :: "case x: case y:".toList).toArray + 1 ∧
      score "case x: case y:".toList.toArray = 3 ∧
      score ("case".toList ++ '\n' :: "case x: case y:".toList).toArray = 3 := by
  have hlabel : tokens[5] ∈ tokens := List.getElem_mem _
  obtain ⟨hcount, hscore⟩ := score_append_newline "case".toList "case x: case y:".toList
  refine ⟨hlabel, ?_, hcount _ hlabel, hscore, ?_, ?_⟩
  · decide +kernel
  · decide +kernel
  · decide +kernel

end SourceScan.Complexity
