import SourceScan.Proofs.Function.Indented
import SourceScan.Proofs.Function.Nesting

/-!
# Indented functions in functions

Where every signature ends on its header's own line, the spans of indented functions are laminar: two of them
are apart, or one lies within the other (`FunctionSpan.indented_laminar`). A function whose header is among the
lines of another is indented more than that one, since its header is no blank line; so a line that is indented
too little for the outer body is so for the inner one too, and the inner body has ended by then
(`IndentBody.BodyEndsOn.le_of_inner`).

A signature of several lines may go on beyond the end of the function around it, and its own function then ends
after that one; nothing is said of such texts here.
-/

namespace SourceScan

namespace IndentBody

variable {lines : List (List Char)} {line : List Char} {first start start' indent indent' last last' : Nat}

/-- A signature ends on its header's line if as many brackets close on it as open. -/
theorem signatureEndsOn_of_opened (hline : lines[first]? = some line) (hopened : opened line ≤ 0) :
    SignatureEndsOn lines first first := by
  have hlt : first < lines.length := (List.getElem?_eq_some_iff.mp hline).1
  have hone : openAfter lines first first = opened line := by
    unfold openAfter
    rw [Nat.add_sub_cancel_left, List.drop_eq_getElem?_toList_append, hline]
    show opened line + 0 = opened line
    exact Int.add_zero _
  refine Or.inl ⟨Nat.le_refl first, hlt, ?_, fun j hle hless => ?_⟩
  · rw [hone]
    exact hopened
  · exact absurd hle (Nat.not_le_of_lt hless)

/-- A body that begins in another one and is indented more ends with it at the latest. -/
theorem BodyEndsOn.le_of_inner (houter : BodyEndsOn lines start indent last)
    (hinner : BodyEndsOn lines start' indent' last') (hstart : start < start') (hle : start' ≤ last)
    (hdeep : indent < indent') : last' ≤ last := by
  apply Nat.le_of_not_lt
  intro hlt
  -- Otherwise all lines up to the end of the inner body belong to the outer one.
  apply houter.not_reaches hlt
  refine ⟨by omega, fun j line hj hj' hline => ?_, Or.inr ?_⟩
  · rcases Nat.lt_or_ge last j with hout | hin
    · have hmore := hinner.inside j line (by omega) hj' hline
      exact hmore.imp_right fun h => Nat.lt_trans hdeep h
    · exact houter.inside j line hj hin hline
  · exact hinner.filled.resolve_left (by omega)

end IndentBody

namespace Header

open Pattern

/-- A line with a header is not blank: a name is on it. -/
theorem Indents.not_blank {line : List Char} {indent : Nat} {name : String}
    (h : Indents line.toArray indent name) : ¬Text.Blank line := by
  intro hblank
  obtain ⟨i, _, _, _, _, hword, _⟩ := h
  have hchar := charAt_of_word1 hword
  rw [charAt_eq_any, List.getElem?_toArray] at hchar
  obtain ⟨c, hc, hisWord⟩ := (Option.any_eq_true _ _).mp hchar
  have hnot := Text.not_isWord_of_isBlank (hblank c (List.mem_of_getElem? hc))
  exact Bool.false_ne_true (hnot.symm.trans hisWord)

end Header

namespace FunctionSpan

open IndentBody

variable {text : List Char} {f g : FunctionSpan}

/-- Every header's signature ends on the header's own line. -/
def SignaturesOnHeader (text : List Char) : Prop :=
  ∀ i line indent name, (Text.lines text)[i]? = some line → Header.Indents line.toArray indent name →
    SignatureEndsOn (Text.lines text) i i

/-- How far the first line of a function is indented. -/
def indentOf (text : List Char) (f : FunctionSpan) : Nat := (Text.lines text)[f.startLine - 1]?.elim 0 Text.indent

/-- No line is in both functions. -/
def Apart (f g : FunctionSpan) : Prop := f.lastLine < g.startLine ∨ g.lastLine < f.startLine

/-- All lines of `f` are lines of `g`. -/
structure Within (f g : FunctionSpan) : Prop where
  starts : g.startLine ≤ f.startLine
  ends : f.lastLine ≤ g.lastLine

/-- A function whose signature ends on its header's line is the body that begins there. -/
theorem exists_body_of_mem (hone : SignaturesOnHeader text) (hf : f ∈ ofText .python text) :
    ∃ i line last, (Text.lines text)[i]? = some line ∧ ¬Text.Blank line ∧
      BodyEndsOn (Text.lines text) i (indentOf text f) last ∧ indentOf text f = Text.indent line ∧
      f.startLine = i + 1 ∧ f.lastLine = last + 1 := by
  obtain ⟨i, line, hline, hf⟩ := mem_ofText_python.mp hf
  obtain ⟨name, hname, rfl⟩ := Option.map_eq_some_iff.mp hf
  obtain ⟨indent, hindents⟩ := Header.name?_python_iff.mp hname
  have hstart : signatureEnd (Text.lines text) i = i :=
    (signatureEndsOn_signatureEnd _ i).unique (hone i line indent name hline hindents)
  rw [hstart]
  have hbody := bodyEndsOn_bodyEnd (Text.lines text) i (Text.indent line)
  have hle := hbody.start_le
  generalize bodyEnd (Text.lines text) i (Text.indent line) = last at hbody hle ⊢
  have hindent : indentOf text (ofIndices name i last) = Text.indent line := by
    show (Text.lines text)[i + 1 - 1]?.elim 0 Text.indent = Text.indent line
    rw [Nat.add_sub_cancel, hline]
    rfl
  refine ⟨i, line, last, hline, hindents.not_blank, ?_, hindent, rfl, ?_⟩
  · rw [hindent]
    exact hbody
  · show i + 1 + (last + 1 - i) - 1 = last + 1
    omega

/-- A function that begins among the lines of another ends among them and is indented more. -/
theorem within_of_startLine_le (hone : SignaturesOnHeader text) (hf : f ∈ ofText .python text)
    (hg : g ∈ ofText .python text) (hlt : f.startLine < g.startLine) (hle : g.startLine ≤ f.lastLine) :
    Within g f ∧ indentOf text f < indentOf text g := by
  obtain ⟨i, _, last, _, _, hbody, _, hstart, hlast⟩ := exists_body_of_mem hone hf
  obtain ⟨j, line, last', hline, hfilled, hbody', hindent, hstart', hlast'⟩ := exists_body_of_mem hone hg
  have hdeep : indentOf text f < indentOf text g := by
    rw [hindent]
    exact (hbody.inside j line (by omega) (by omega) hline).resolve_left hfilled
  have hends := hbody.le_of_inner hbody' (by omega) (by omega) hdeep
  exact ⟨⟨Nat.le_of_lt hlt, by omega⟩, hdeep⟩

/-- **Indented functions are laminar.** In a text in which every signature ends on its header's line, two
functions are apart or one lies within the other; and a function whose header is among the lines of another
ends among them and is indented more. -/
theorem indented_laminar (hone : SignaturesOnHeader text) (hf : f ∈ ofText .python text)
    (hg : g ∈ ofText .python text) :
    (Apart f g ∨ Within f g ∨ Within g f) ∧
      (f.startLine < g.startLine → g.startLine ≤ f.lastLine →
        Within g f ∧ indentOf text f < indentOf text g) := by
  refine ⟨?_, within_of_startLine_le hone hf hg⟩
  rcases Nat.lt_trichotomy f.startLine g.startLine with hlt | heq | hlt
  · rcases Nat.lt_or_ge f.lastLine g.startLine with hbefore | hle
    · exact Or.inl (Or.inl hbefore)
    · exact Or.inr (Or.inr (within_of_startLine_le hone hf hg hlt hle).1)
  · -- No two functions begin on one line, but either way one of them ends no later.
    rcases Nat.le_total f.lastLine g.lastLine with hle | hle
    · exact Or.inr (Or.inl ⟨Nat.le_of_eq heq.symm, hle⟩)
    · exact Or.inr (Or.inr ⟨Nat.le_of_eq heq, hle⟩)
  · rcases Nat.lt_or_ge g.lastLine f.startLine with hbefore | hle
    · exact Or.inl (Or.inr hbefore)
    · exact Or.inr (Or.inl (within_of_startLine_le hone hg hf hlt hle).1)

/-- A function in a function, with a blank line between the two bodies, and a function after them. -/
def innerText : List Char := "def f(a):\n  def g():\n    x\n\n  y\ndef h():\n  z".toList

/-- The inner function is within the outer one, and the last function is apart from both. -/
theorem indented_laminar_inner :
    SignaturesOnHeader innerText ∧ ofText .python innerText = [⟨"f", 5, 1⟩, ⟨"g", 2, 2⟩, ⟨"h", 2, 6⟩] ∧
      Within ⟨"g", 2, 2⟩ ⟨"f", 5, 1⟩ ∧ indentOf innerText ⟨"f", 5, 1⟩ < indentOf innerText ⟨"g", 2, 2⟩ := by
  have hopened : ∀ line ∈ Text.lines innerText, opened line ≤ 0 := by decide
  have hone : SignaturesOnHeader innerText := fun i line _ _ hline _ =>
    signatureEndsOn_of_opened hline (hopened line (List.mem_of_getElem? hline))
  have hspans : ofText .python innerText = [⟨"f", 5, 1⟩, ⟨"g", 2, 2⟩, ⟨"h", 2, 6⟩] := by decide +kernel
  have hf : ⟨"f", 5, 1⟩ ∈ ofText .python innerText := by
    rw [hspans]
    exact List.mem_cons_self
  have hg : ⟨"g", 2, 2⟩ ∈ ofText .python innerText := by
    rw [hspans]
    exact List.mem_cons_of_mem _ List.mem_cons_self
  obtain ⟨hwithin, hdeep⟩ := (indented_laminar hone hf hg).2 (by decide) (by decide)
  exact ⟨hone, hspans, hwithin, hdeep⟩

end FunctionSpan

end SourceScan
