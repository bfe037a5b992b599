import Mathlib.Data.List.Basic
import SourceScan.Text.Lines

/-!
# Lines of a text

A text has one line more than it has line feeds, its lines hold no character that it does not hold and no
line feed, and a text whose line ends were unified has no carriage return left for `dropReturn` to take off.
-/

namespace SourceScan.Text

variable {cut : Char → Bool} {cs line : List Char} {c : Char}

theorem length_splitAll (cut : Char → Bool) (cs : List Char) :
    (splitAll cut cs).length = cs.countP cut + 1 := by
  induction cs with
  | nil => rfl
  | cons c cs ih =>
    simp only [splitAll, List.foldr_cons] at ih ⊢
    split
    · next hc => rw [List.length_cons, ih, List.countP_cons_of_pos hc]
    · next hc =>
      rw [List.countP_cons_of_neg hc, ← ih]
      split
      · next hpieces => rw [hpieces, List.length_cons, List.length_cons]
      · next hpieces =>
        rw [hpieces] at ih
        exact absurd ih (Nat.succ_ne_zero _).symm

/-- A text has one line more than it has line feeds. -/
theorem length_lines (cs : List Char) : (lines cs).length = cs.count '\n' + 1 :=
  length_splitAll _ cs

/-- A piece holds only characters of the text, and none at which the text is cut. -/
theorem mem_of_mem_splitAll (h : line ∈ splitAll cut cs) (hc : c ∈ line) : c ∈ cs ∧ cut c = false := by
  induction cs generalizing line with
  | nil =>
    rw [splitAll, List.foldr_nil] at h
    rw [List.mem_singleton.mp h] at hc
    cases hc
  | cons d cs ih =>
    have later : ∀ {line}, line ∈ splitAll cut cs → c ∈ line → c ∈ d :: cs ∧ cut c = false :=
      fun h hc => (ih h hc).imp_left (List.mem_cons_of_mem d)
    simp only [splitAll, List.foldr_cons] at later h
    split at h
    · rcases List.mem_cons.mp h with rfl | h
      · cases hc
      · exact later h hc
    · next hd =>
      have first : d ∈ d :: cs ∧ cut d = false := ⟨List.mem_cons_self, Bool.eq_false_iff.mpr hd⟩
      split at h
      · next piece rest hpieces =>
        rw [hpieces] at later
        rcases List.mem_cons.mp h with rfl | h
        · rcases List.mem_cons.mp hc with rfl | hc
          · exact first
          · exact later List.mem_cons_self hc
        · exact later (List.mem_cons_of_mem piece h) hc
      · rw [List.mem_singleton.mp h, List.mem_singleton] at hc
        rw [hc]
        exact first

/-- A line holds only characters of its text. -/
theorem mem_of_mem_lines (h : line ∈ lines cs) (hc : c ∈ line) : c ∈ cs := (mem_of_mem_splitAll h hc).1

/-- No line holds a line feed. -/
theorem newline_not_mem_of_mem_lines (h : line ∈ lines cs) : '\n' ∉ line :=
  fun hc => Bool.false_ne_true (mem_of_mem_splitAll h hc).2.symm

/-- Without carriage returns no line feed follows one. -/
theorem joinReturns_eq_self (h : '\r' ∉ cs) : joinReturns cs = cs := by
  have hall : ∀ e ∈ (' ' :: cs).zip cs,
      (if e.1 == '\r' && e.2 == '\n' then none else some e.2) = some e.2 := by
    intro e he
    have hbefore : (e.1 == '\r') = false := by
      rw [beq_eq_false_iff_ne]
      rintro heq
      have hmem := (List.of_mem_zip he).1
      rw [heq, List.mem_cons] at hmem
      exact hmem.elim (by decide) h
    rw [hbefore]
    rfl
  rw [joinReturns, List.filterMap_congr hall, List.filterMap_eq_map', List.map_snd_zip]
  rw [List.length_cons]
  omega

/-- No carriage return is left in a text whose line ends were unified. -/
theorem return_not_mem_unifyNewlines (cs : List Char) : '\r' ∉ unifyNewlines cs := by
  intro h
  obtain ⟨c, _, hc⟩ := List.mem_map.mp h
  split at hc
  · cases hc
  · next hne =>
    rw [hc] at hne
    exact hne rfl

theorem dropReturn_eq_self (h : '\r' ∉ line) : dropReturn line = line := by
  rw [dropReturn]
  split
  · next hlast => exact absurd (List.mem_of_getLast? (eq_of_beq hlast)) h
  · rfl

/-- Behind a character that is no carriage return, what is taken off is taken off there. -/
theorem dropReturn_append_cons (cs rest : List Char) (hc : c ≠ '\r') :
    dropReturn (cs ++ c :: rest) = cs ++ c :: dropReturn rest := by
  cases rest with
  | nil =>
    have hlast : ((cs ++ [c]).getLast? == some '\r') = false := by simpa using hc
    rw [dropReturn, if_neg (by rw [hlast]; exact Bool.false_ne_true)]
    rfl
  | cons d rest =>
    have hlast : (cs ++ c :: d :: rest).getLast? = (d :: rest).getLast? := by
      rw [List.getLast?_append, List.getLast?_cons_cons, List.getLast?_cons, Option.some_or]
    have hinit : (cs ++ c :: d :: rest).dropLast = cs ++ c :: (d :: rest).dropLast :=
      List.dropLast_append_cons
    rw [dropReturn, dropReturn, hlast, hinit]
    split <;> rfl

/-- The lines of a text whose line ends were unified are whole. -/
theorem dropReturn_of_mem_lines (h : line ∈ lines (unifyNewlines cs)) : dropReturn line = line :=
  dropReturn_eq_self fun hr => return_not_mem_unifyNewlines cs (mem_of_mem_lines h hr)

end SourceScan.Text
