import SourceScan.Proofs.Function.Nesting
import SourceScan.Proofs.Text.ChangedLine

/-!
# Functions with text around them

The search for the end of a function begins at its header, so text before it moves its lines and changes nothing
else (`FunctionSpan.ofText_append_newline`). It goes on until the body has ended, so text after a body whose
closing brace was found changes nothing at all (`BraceBody.endLine?_append_of_closes`). Both together are
`FunctionSpan.functions_between`.

A body whose braces never balance runs to the end of its text. That end is further on in a longer text, and the
braces that come may even close the body; the law for text after a function leaves such bodies out.
-/

namespace SourceScan

namespace Text

/-- A line feed between two texts keeps the lines of both. -/
theorem lines_append_newline (before after : List Char) :
    lines (before ++ '\n' :: after) = lines before ++ lines after := by
  unfold lines
  rw [splitAll_eq_splitOnP, splitAll_eq_splitOnP, splitAll_eq_splitOnP]
  exact List.splitOnP_append_cons before after rfl

end Text

namespace BraceBody

variable {depth : Int} {opened : Bool} {marks : List (Nat × Mark)} {lines : List (List Char)}
  {line start last : Nat}

/-! ## Lines before a body -/

/-- Lines before a header move the end of its body. -/
theorem endLine?_append (before lines : List (List Char)) (start : Nat) :
    endLine? (before ++ lines) (before.length + start) = (endLine? lines start).map (before.length + ·) := by
  unfold endLine?
  rw [List.drop_length_add_append, Option.map_map]
  congr 1
  ext k
  exact Nat.add_assoc _ _ _

/-! ## Lines after a body -/

/-- The body of the header on line `start` is closed by a brace in the text. -/
def Closes (lines : List (List Char)) (start : Nat) : Prop :=
  (closingLine? (numbered start (codeMarks lines start))).isSome = true

instance (lines : List (List Char)) (start : Nat) : Decidable (Closes lines start) :=
  inferInstanceAs (Decidable (_ = true))

/-- Marks after the brace that closes a body are not asked for. -/
theorem settle_append_of_closes (h : settle depth opened marks = some (some line)) (later : List (Nat × Mark)) :
    settle depth opened (marks ++ later) = some (some line) := by
  induction marks generalizing depth opened with
  | nil => cases opened <;> cases h
  | cons first rest ih =>
    obtain ⟨l, m⟩ := first
    rw [List.cons_append]
    cases m with
    | opens => exact ih h
    | closes =>
      unfold settle at h ⊢
      split at h
      · next hclosed =>
        rw [if_pos hclosed]
        exact h
      · next hopen =>
        rw [if_neg hopen]
        exact ih h
    | ends =>
      unfold settle at h ⊢
      split at h
      · next hopened =>
        rw [if_pos hopened]
        exact ih h
      · cases h

/-- The marks of the first lines of a text are those of these lines alone. -/
theorem lexLines_append (r : Region) (before after : List (List Char)) :
    ∃ r', lexLines r (before ++ after) = lexLines r before ++ lexLines r' after := by
  induction before generalizing r with
  | nil => exact ⟨r, rfl⟩
  | cons line rest ih =>
    obtain ⟨r', hrest⟩ := ih (lex r line).2
    refine ⟨r', ?_⟩
    rw [List.cons_append, lexLines, lexLines, hrest]
    rfl

/-- Lines after a body that closes do not change its end. -/
theorem endLine?_append_of_closes (hcloses : Closes lines start) (hend : endLine? lines start = some last)
    (later : List (List Char)) : endLine? (lines ++ later) start = some last := by
  have hle : start ≤ lines.length := by
    have hbounds := endLine?_bounds hend
    omega
  have hpass : settle 0 false (numbered start (codeMarks lines start)) =
      if declares ((numbered start (codeMarks lines start)).map Prod.snd) then none
      else some (closingLine? (numbered start (codeMarks lines start))) :=
    settle_eq [] _
  obtain ⟨closing, hclosing⟩ := Option.isSome_iff_exists.mp hcloses
  rw [hclosing] at hpass
  rw [endLine?_settle] at hend ⊢
  split at hpass
  · rw [hpass] at hend
    cases hend
  · rw [hpass] at hend
    obtain ⟨r, hlex⟩ := lexLines_append .code (lines.drop start) later
    have hmarks : codeMarks (lines ++ later) start = codeMarks lines start ++ lexLines r later := by
      unfold codeMarks
      rw [List.drop_append_of_le_length hle, hlex]
    rw [hmarks, numbered_append, settle_append_of_closes hpass]
    exact hend

end BraceBody

namespace IndentBody

/-- A search that begins further on ends as much further on. -/
theorem bodyEndFrom_add (n : Nat) (indent : Int) (last next : Nat) (lines : List (List Char)) :
    bodyEndFrom indent (n + last) (n + next) lines = n + bodyEndFrom indent last next lines := by
  induction lines generalizing last next with
  | nil => rfl
  | cons line rest ih =>
    unfold bodyEndFrom
    split
    · exact ih last (next + 1)
    · split
      · exact ih next (next + 1)
      · rfl

/-- Lines before a header move the end of its signature. -/
theorem signatureEnd_append (before lines : List (List Char)) (start : Nat) :
    signatureEnd (before ++ lines) (before.length + start) = before.length + signatureEnd lines start := by
  unfold signatureEnd
  rw [List.drop_length_add_append, Nat.add_assoc]

/-- Lines before a signature move the end of its body. -/
theorem bodyEnd_append (before lines : List (List Char)) (start : Nat) (indent : Int) :
    bodyEnd (before ++ lines) (before.length + start) indent = before.length + bodyEnd lines start indent := by
  unfold bodyEnd
  rw [Nat.add_assoc, List.drop_length_add_append]
  exact bodyEndFrom_add before.length indent start (start + 1) _

end IndentBody

namespace FunctionSpan

open BraceBody IndentBody

variable {language : Language} {lines : List (List Char)} {text : List Char} {f : FunctionSpan}

/-- The same function, `n` lines further on. -/
def moved (n : Nat) (f : FunctionSpan) : FunctionSpan := { f with startLine := n + f.startLine }

theorem ofIndices_add (n : Nat) (name : String) (first last : Nat) :
    ofIndices name (n + first) (n + last) = (ofIndices name first last).moved n := by
  have hlines : n + last + 1 - (n + first) = last + 1 - first := by omega
  unfold ofIndices
  rw [hlines]
  rfl

/-- The function whose header is a line of a text, if it is one. -/
def headerAt (language : Language) (lines : List (List Char)) (line : List Char) (i : Nat) :
    Option FunctionSpan :=
  match language with
  | .python => indentedAt lines line i
  | _ => bracedAt language.braceHeaders lines line i

theorem ofText_eq (language : Language) (text : List Char) :
    ofText language text = (Text.lines text).zipIdx.filterMap fun header =>
      headerAt language (Text.lines text) header.1 header.2 := rfl

theorem startLine_of_headerAt {line : List Char} {i : Nat} (h : headerAt language lines line i = some f) :
    f.startLine = i + 1 := by
  cases language with
  | python => exact startLine_of_indentedAt h
  | _ => exact startLine_of_bracedAt h

/-- Lines before a header move its function. -/
theorem headerAt_append (language : Language) (before lines : List (List Char)) (line : List Char) (i : Nat) :
    headerAt language (before ++ lines) line (before.length + i) =
      (headerAt language lines line i).map (moved before.length) := by
  have hbraced : ∀ headers, bracedAt headers (before ++ lines) line (before.length + i) =
      (bracedAt headers lines line i).map (moved before.length) := by
    intro headers
    unfold bracedAt
    rw [endLine?_append]
    cases headerName? headers line.toArray with
    | none => rfl
    | some name =>
      cases endLine? lines i with
      | none => rfl
      | some last => exact congrArg some (ofIndices_add before.length name i last)
  cases language with
  | python =>
    show indentedAt _ _ _ = (indentedAt _ _ _).map _
    unfold indentedAt
    rw [Option.map_map, signatureEnd_append, bodyEnd_append]
    congr 1
    ext name : 1
    exact ofIndices_add before.length name i _
  | _ => exact hbraced _

/-- The functions of a text with another one before it are those whose headers are
lines of the first text, and those of the second, moved by the number of lines before it. -/
theorem ofText_append_newline (language : Language) (before text : List Char) :
    ofText language (before ++ '\n' :: text) =
      ((Text.lines before).zipIdx.filterMap fun header =>
        headerAt language (Text.lines before ++ Text.lines text) header.1 header.2) ++
      (ofText language text).map (moved (Text.lines before).length) := by
  have hnumbers : ∀ n, (Text.lines text).zipIdx n = (Text.lines text).zipIdx.map fun header =>
      (header.1, n + header.2) := fun _ => List.zipIdx_eq_map_add
  rw [ofText_eq, ofText_eq, Text.lines_append_newline, List.zipIdx_append, List.filterMap_append, Nat.zero_add,
    hnumbers, List.filterMap_map, List.map_filterMap]
  congr 2
  ext header : 1
  exact headerAt_append language _ _ header.1 header.2

/-- **Functions between two other texts.** The functions that begin after the last line of a text before are
those of the text itself, moved by the number of lines of that text, with their names and lengths. And where
bodies stand in braces, a function whose body closes in the text is there as well, and the same, with any text
after. -/
theorem functions_between (language : Language) (before text after : List Char) :
    (ofText language (before ++ '\n' :: text)).filter
        (fun f => decide ((Text.lines before).length < f.startLine)) =
      (ofText language text).map (moved (Text.lines before).length) ∧
    (language ≠ .python → ∀ f ∈ ofText language text, Closes (Text.lines text) (f.startLine - 1) →
      f ∈ ofText language (text ++ '\n' :: after)) := by
  constructor
  · rw [ofText_append_newline, List.filter_append]
    have hfirst : ∀ f ∈ (Text.lines before).zipIdx.filterMap (fun header =>
        headerAt language (Text.lines before ++ Text.lines text) header.1 header.2),
        ¬decide ((Text.lines before).length < f.startLine) = true := by
      intro f hf
      obtain ⟨⟨line, i⟩, hmem, hf⟩ := List.mem_filterMap.mp hf
      have hi := List.snd_lt_of_mem_zipIdx hmem
      rw [startLine_of_headerAt hf, decide_eq_true_eq]
      dsimp only at hi ⊢
      omega
    have hlater : ∀ f ∈ (ofText language text).map (moved (Text.lines before).length),
        decide ((Text.lines before).length < f.startLine) = true := by
      intro f hf
      obtain ⟨g, hg, rfl⟩ := List.mem_map.mp hf
      have hpos := (mem_ofText_bounds hg).1
      rw [decide_eq_true_eq]
      show _ < _ + g.startLine
      omega
    rw [List.filter_eq_nil_iff.mpr hfirst, List.filter_eq_self.mpr hlater, List.nil_append]
  · intro hl f hf hcloses
    obtain ⟨i, line, name, last, hline, hname, hlast, rfl⟩ := (mem_ofText_braced hl).mp hf
    rw [mem_ofText_braced hl, Text.lines_append_newline]
    refine ⟨i, line, name, last, ?_, hname, endLine?_append_of_closes hcloses hlast _, rfl⟩
    rw [List.getElem?_append_left (List.getElem?_eq_some_iff.mp hline).1]
    exact hline

/-- A function whose body closes. -/
def closedText : List Char := "function f() \x7b\n  g()\n\x7d".toList

/-- It is there between two other texts, though a brace comes after it that closes nothing. -/
theorem functions_between_closed :
    ofText .javascript closedText = [⟨"f", 3, 1⟩] ∧ Closes (Text.lines closedText) 0 ∧
      (ofText .javascript ("a\nb".toList ++ '\n' :: closedText)).filter (fun f => decide (2 < f.startLine)) =
        [⟨"f", 3, 3⟩] ∧
      ⟨"f", 3, 1⟩ ∈ ofText .javascript (closedText ++ '\n' :: "\x7d".toList) := by
  have hspans : ofText .javascript closedText = [⟨"f", 3, 1⟩] := by decide +kernel
  have hcloses : Closes (Text.lines closedText) 0 := by decide +kernel
  obtain ⟨hbefore, hafter⟩ := functions_between .javascript "a\nb".toList closedText "\x7d".toList
  have hf : ⟨"f", 3, 1⟩ ∈ ofText .javascript closedText := by
    rw [hspans]
    exact List.mem_cons_self
  refine ⟨hspans, hcloses, ?_, hafter (by decide) _ hf hcloses⟩
  rw [hspans] at hbefore
  exact hbefore

end FunctionSpan

end SourceScan
