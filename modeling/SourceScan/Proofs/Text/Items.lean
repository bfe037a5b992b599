import Mathlib.Data.List.DropRight
import SourceScan.Proofs.Text.ChangedLine
import SourceScan.Proofs.Text.Places

/-!
# Items, one to a line

Lines without line breaks, put together with line feeds, are the paragraphs of the text that they make, but for an
empty one at its end (`paragraphs_joinLines`). Of a line, what counts is without the blanks at its ends: blanks more
or less make no difference (`strip_margins`), and up to a character before which no blank stands it is read as from
its first character that is no blank (`takeWhile_strip`).
-/

namespace SourceScan.Text

variable {cut cut' p : Char → Bool} {ls : List (List Char)} {line margin before after cs : List Char} {c : Char}

/-! ## Lines put together -/

theorem splitAll_congr (h : ∀ c ∈ cs, cut c = cut' c) : splitAll cut cs = splitAll cut' cs := by
  induction cs with
  | nil => rfl
  | cons c cs ih =>
    have hrest := ih fun d hd => h d (List.mem_cons_of_mem c hd)
    simp only [splitAll, List.foldr_cons] at hrest ⊢
    rw [h c List.mem_cons_self, hrest]

/-- A character of lines put together is a line feed or stands in one of them. -/
theorem mem_joinLines (h : c ∈ joinLines ls) : c = '\n' ∨ ∃ line ∈ ls, c ∈ line := by
  induction ls with
  | nil => cases h
  | cons line ls ih =>
    cases ls with
    | nil =>
      rw [joinLines, List.intercalate_singleton] at h
      exact Or.inr ⟨line, List.mem_singleton_self _, h⟩
    | cons next ls =>
      rw [joinLines, List.intercalate_cons_cons, List.append_assoc, List.mem_append, List.mem_append] at h
      rcases h with h | h | h
      · exact Or.inr ⟨line, List.mem_cons_self, h⟩
      · exact Or.inl (List.mem_singleton.mp h)
      · refine (ih h).imp_right fun hfound => ?_
        obtain ⟨other, hother, hc⟩ := hfound
        exact ⟨other, List.mem_cons_of_mem line hother, hc⟩

/-- The lines hold no line breaks of any kind. -/
def Unbroken (ls : List (List Char)) : Prop := ∀ line ∈ ls, ∀ c ∈ line, isLineBreak c = false

-- The characters of the lines are tried out, not all characters there are.
instance : DecidablePred Unbroken := fun ls =>
  decidable_of_iff (ls.all fun line => line.all fun c => !isLineBreak c)
    (by simp only [List.all_eq_true, Bool.not_eq_true', Unbroken])

/-- Lines without line breaks are what the text that they make is cut into. -/
theorem splitAll_joinLines (hne : ls ≠ []) (h : Unbroken ls) :
    splitAll isLineBreak (joinReturns (joinLines ls)) = ls := by
  have hnone : ∀ c, isLineBreak c = true → ∀ line ∈ ls, c ∉ line := by
    intro c hbreak line hline hc
    exact Bool.false_ne_true ((h line hline c hc).symm.trans hbreak)
  have hreturn : '\r' ∉ joinLines ls := by
    intro hc
    rcases mem_joinLines hc with heq | ⟨line, hline, hc⟩
    · exact absurd heq (by decide)
    · exact hnone '\r' (by decide) line hline hc
  have hfeeds : ∀ c ∈ joinLines ls, isLineBreak c = (c == '\n') := by
    intro c hc
    rcases mem_joinLines hc with rfl | ⟨line, hline, hc⟩
    · rfl
    · rw [h line hline c hc, eq_comm, beq_eq_false_iff_ne]
      rintro rfl
      exact hnone '\n' (by decide) line hline hc
  rw [joinReturns_eq_self hreturn, splitAll_congr hfeeds]
  exact lines_joinLines hne (hnone '\n' (by decide))

/-- Lines without line breaks are the paragraphs of the text that they make, less the last one if it is empty. -/
theorem paragraphs_joinLines (h : Unbroken ls) :
    paragraphs (joinLines ls) = ls ∨ paragraphs (joinLines ls) ++ [[]] = ls := by
  cases ls with
  | nil => exact Or.inl rfl
  | cons line ls =>
    rw [paragraphs, splitAll_joinLines (List.cons_ne_nil line ls) h]
    split
    · next hlast => exact Or.inr (List.dropLast_append_getLast? _ (eq_of_beq hlast))
    · exact Or.inl rfl

/-! ## Margins of a line -/

theorem strip_append_blanks (hafter : Blanks after) (line : List Char) : strip (line ++ after) = strip line := by
  have hback : after.reverse.dropWhile isBlank = [] := List.dropWhile_eq_nil_iff.mpr fun c hc =>
    hafter c (List.mem_reverse.mp hc)
  simp only [strip, stripStart]
  rw [List.dropWhile_append]
  split
  · next hnone => rw [List.isEmpty_iff.mp hnone, List.dropWhile_eq_nil_iff.mpr hafter]
  · rw [List.reverse_append, List.dropWhile_append, hback]
    rfl

/-- Blanks more or less at its ends make no difference to what is left of a line without them. -/
theorem strip_margins (hbefore : Blanks before) (hafter : Blanks after) (line : List Char) :
    strip (before ++ line ++ after) = strip line := by
  rw [strip_append_blanks hafter]
  simp only [strip, stripStart, List.dropWhile_append_of_pos hbefore]

/-- Behind its first character that is no blank a line has what is left of it without margins, and blanks. -/
theorem exists_stripStart_eq (line : List Char) : ∃ margin, Blanks margin ∧ stripStart line = strip line ++ margin := by
  refine ⟨((stripStart line).reverse.takeWhile isBlank).reverse, fun c hc => ?_, ?_⟩
  · exact List.mem_takeWhile_imp (List.mem_reverse.mp hc)
  · show _ = (List.dropWhile isBlank (stripStart line).reverse).reverse ++ _
    rw [← List.reverse_append, List.takeWhile_append_dropWhile, List.reverse_reverse]

/-- Without its margins a line begins with its first character that is no blank. -/
theorem head?_strip (line : List Char) : (strip line).head? = (stripStart line).head? := by
  obtain ⟨margin, hmargin, heq⟩ := exists_stripStart_eq line
  rw [heq, List.head?_append]
  cases hstrip : strip line with
  | cons c rest => rfl
  | nil =>
    -- What is left are blanks alone, and it does not begin with a blank.
    rw [hstrip, List.nil_append] at heq
    have hnone : margin = [] := by
      rw [← heq, stripStart, ← List.dropWhile_idempotent isBlank line]
      exact List.dropWhile_eq_nil_iff.mpr fun c hc => hmargin c (heq ▸ hc)
    rw [hnone]
    rfl

/-- Blanks behind a line are passed over with its margins. -/
theorem takeWhile_strip (hp : ∀ c, isBlank c = true → p c = false) (line : List Char) :
    (strip line).takeWhile p = (stripStart line).takeWhile p := by
  obtain ⟨margin, hmargin, heq⟩ := exists_stripStart_eq line
  have hstops : margin.takeWhile p = [] := by
    cases margin with
    | nil => rfl
    | cons c rest =>
      have hblank := hp c (hmargin c List.mem_cons_self)
      exact List.takeWhile_cons_of_neg (by rw [hblank]; exact Bool.false_ne_true)
  rw [heq, List.takeWhile_append, hstops, List.append_nil]
  split
  · next hall => exact (List.takeWhile_prefix p).eq_of_length hall
  · rfl

end SourceScan.Text
