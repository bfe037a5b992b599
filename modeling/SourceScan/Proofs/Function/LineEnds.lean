import SourceScan.Proofs.Function.IndentNesting
import SourceScan.Proofs.Function.OneName
import SourceScan.Proofs.Function.Surroundings
import SourceScan.Proofs.Pattern.LineEnds
import SourceScan.Proofs.Text.LineEnds

/-!
# Functions in a text with carriage returns

A carriage return at the end of a line changes nothing for the functions of a text
(`FunctionSpan.ofText_withReturns`). It is no brace, quote or comment mark, and it is the last character of its
line, so a backslash before it takes nothing that the end of the line would not have ended
(`BraceBody.scanLine_return`). It is no bracket, and it is a blank, so it makes no line blank or indented more
that was not (`Text.blank_return_iff`, `Text.indent_return`). And it is in no header's name
(`Header.names_return_iff`).
-/

namespace SourceScan

namespace Text

variable {line : List Char}

theorem blank_return_iff : Blank (line ++ ['\r']) ↔ Blank line := by
  unfold Blank
  rw [List.forall_mem_append]
  exact and_iff_left (List.forall_mem_singleton.mpr rfl)

theorem indent_return (h : ¬Blank line) : indent (line ++ ['\r']) = indent line := by
  induction line with
  | nil => exact absurd nofun h
  | cons c line ih =>
    unfold indent at ih ⊢
    rw [List.cons_append]
    by_cases hc : isBlank c = true
    · have hrest : ¬Blank line := fun hblank => h (List.forall_mem_cons.mpr ⟨hc, hblank⟩)
      rw [List.takeWhile_cons_of_pos hc, List.takeWhile_cons_of_pos hc, List.length_cons, List.length_cons, ih hrest]
    · rw [List.takeWhile_cons_of_neg hc, List.takeWhile_cons_of_neg hc]

/-- The first characters with a property are the same, or go on over the return. -/
theorem returnAtEnd_takeWhile {p : Char → Bool} (hp : p '\r' = true) (line : List Char) :
    ReturnAtEnd (line.takeWhile p) ((line ++ ['\r']).takeWhile p) := by
  induction line with
  | nil => exact Or.inr (List.takeWhile_cons_of_pos hp)
  | cons c line ih =>
    rw [List.cons_append]
    by_cases hc : p c = true
    · rw [List.takeWhile_cons_of_pos hc, List.takeWhile_cons_of_pos hc]
      exact ih.cons c
    · rw [List.takeWhile_cons_of_neg hc, List.takeWhile_cons_of_neg hc]
      exact Or.inl rfl

end Text

open Text (ReturnAtEnd)

variable {lines lines' : List (List Char)}

/-! ## Where bodies end -/

namespace BraceBody

theorem Context.nextLine_next_return (x : Context) : (x.next '\r').nextLine = x.nextLine := by
  cases x with
  | quoted mark escaped =>
    cases escaped with
    | true => rfl
    | false =>
      show (if '\r' == mark then code else quoted mark false).nextLine = code
      split <;> rfl
  | template escaped => cases escaped <;> rfl
  | _ => rfl

/-- A carriage return at the end of a line is read over. -/
theorem scanLine_return (s : State) (line : List Char) : scanLine s (line ++ ['\r']) = scanLine s line := by
  induction line generalizing s with
  | nil =>
    have hread : s.read '\r' = .more { s with context := s.context.next '\r' } := by
      unfold State.read
      split <;> rfl
    show scanLine s ['\r'] = scanLine s []
    unfold scanLine
    rw [hread]
    show Progress.more { s with context := (s.context.next '\r').nextLine } = _
    rw [Context.nextLine_next_return]
  | cons c line ih =>
    rw [List.cons_append]
    unfold scanLine
    cases s.read c with
    | more s => exact ih s
    | closes => rfl
    | declares => rfl

theorem endFrom_returns (h : List.Forall₂ ReturnAtEnd lines lines') (s : State) (passed : Nat) :
    endFrom s passed lines' = endFrom s passed lines := by
  induction h generalizing s passed with
  | nil => rfl
  | cons hline _ ih =>
    unfold endFrom
    rw [hline.eq (scanLine_return s _)]
    split
    · exact ih _ _
    · rfl
    · rfl

theorem endLine?_returns (h : List.Forall₂ ReturnAtEnd lines lines') (start : Nat) :
    endLine? lines' start = endLine? lines start := by
  unfold endLine?
  rw [endFrom_returns (List.forall₂_drop start h)]

end BraceBody

namespace IndentBody

theorem balance_return (line : List Char) : balance (line ++ ['\r']) = balance line := by
  unfold balance
  apply (Text.returnAtEnd_takeWhile rfl line).eq
  rw [List.foldl_concat]
  rfl

theorem balancedAfter_returns (h : List.Forall₂ ReturnAtEnd lines lines') (depth : Int) (passed : Nat) :
    balancedAfter depth passed lines' = balancedAfter depth passed lines := by
  induction h generalizing depth passed with
  | nil => rfl
  | cons hline _ ih =>
    unfold balancedAfter
    rw [hline.eq (balance_return _)]
    dsimp only
    rw [ih]

theorem signatureEnd_returns (h : List.Forall₂ ReturnAtEnd lines lines') (start : Nat) :
    signatureEnd lines' start = signatureEnd lines start := by
  unfold signatureEnd
  rw [balancedAfter_returns (List.forall₂_drop start h)]

theorem bodyEndFrom_returns (h : List.Forall₂ ReturnAtEnd lines lines') (indent : Int) (last next : Nat) :
    bodyEndFrom indent last next lines' = bodyEndFrom indent last next lines := by
  induction h generalizing last next with
  | nil => rfl
  | @cons line line' _ _ hline _ ih =>
    have hblank : (Text.strip line').isEmpty = (Text.strip line).isEmpty := by
      refine hline.eq (f := fun line => (Text.strip line).isEmpty) ?_
      rw [Bool.eq_iff_iff, Text.isEmpty_strip_iff, Text.isEmpty_strip_iff, Text.blank_return_iff]
    unfold bodyEndFrom
    rw [hblank, ih, ih]
    split
    · rfl
    · next hfilled =>
      rw [Text.isEmpty_strip_iff] at hfilled
      rw [hline.eq (Text.indent_return hfilled)]

theorem bodyEnd_returns (h : List.Forall₂ ReturnAtEnd lines lines') (start : Nat) (indent : Int) :
    bodyEnd lines' start indent = bodyEnd lines start indent := by
  unfold bodyEnd
  rw [bodyEndFrom_returns (List.forall₂_drop (start + 1) h)]

end IndentBody

/-! ## Names -/

namespace Header

open Pattern

variable {h : Header} {line : List Char} {name : String}

/-- A line reads as the header with a carriage return at its end if and only if it does without. -/
theorem names_return_iff (hlead : h.lead.looksBack = true) (htail : h.tail.passesReturn = true) :
    h.Names (line ++ ['\r']).toArray name ↔ h.Names line.toArray name := by
  have hextract : ∀ {i j : Nat}, j ≤ line.length → i ≤ j →
      ((line ++ ['\r']).toArray.extract i j).toList = (line.toArray.extract i j).toList := by
    intro i j hj hle
    rw [Array.toList_extract, Array.toList_extract, List.extract_eq_take_drop, List.extract_eq_take_drop,
      List.drop_append_of_le_length (Nat.le_trans hle hj), List.take_append_of_le_length]
    rw [List.length_drop]
    omega
  constructor
  · rintro ⟨i, j, k, hlead', hword, htail', rfl⟩
    have hletters := spans_atLeast_one_iff.mp hword
    have hlast := lt_of_charAt_return (by decide) (hletters.2 (j - 1) (by omega) (by omega))
    have hj : j ≤ line.length := by omega
    obtain ⟨k, htail'⟩ := (begins_return_iff htail hj).mp ⟨k, htail'⟩
    refine ⟨i, j, k, (spans_append_iff _ hlead (Nat.le_trans hword.le hj)).mp hlead',
      (spans_append_iff _ rfl hj).mp hword, htail', ?_⟩
    rw [hextract hj hword.le]
  · rintro ⟨i, j, k, hlead', hword, htail', rfl⟩
    have hi := Spans.le_size hlead' (Nat.zero_le _)
    have hj : j ≤ line.length := Spans.le_size hword hi
    obtain ⟨k, htail'⟩ := (begins_return_iff htail hj).mpr ⟨k, htail'⟩
    refine ⟨i, j, k, (spans_append_iff _ hlead hi).mpr hlead', (spans_append_iff _ rfl hj).mpr hword, htail', ?_⟩
    rw [hextract hj hword.le]

end Header

namespace Language

variable {h : Header} {line line' : List Char}

theorem passesReturn_of_mem (l : Language) (hh : h ∈ l.headers) :
    h.lead.looksBack = true ∧ h.tail.passesReturn = true := by
  have hall : ∀ h ∈ l.headers, h.lead.looksBack = true ∧ h.tail.passesReturn = true := by
    cases l <;> decide
  exact hall h hh

/-- The name in a line is the same with a carriage return at the line's end. -/
theorem name?_return (l : Language) (hh : h ∈ l.headers) (line : List Char) :
    h.name? (line ++ ['\r']).toArray = h.name? line.toArray := by
  obtain ⟨hlead, htail⟩ := l.passesReturn_of_mem hh
  ext name
  rw [l.name?_eq_some_iff hh, l.name?_eq_some_iff hh]
  exact Header.names_return_iff hlead htail

theorem headerName?_return (l : Language) (line : List Char) :
    headerName? l.braceHeaders (line ++ ['\r']).toArray = headerName? l.braceHeaders line.toArray := by
  have hall : ∀ headers : List Header, (∀ h ∈ headers, h ∈ l.headers) →
      headerName? headers (line ++ ['\r']).toArray = headerName? headers line.toArray := by
    intro headers hmem
    unfold headerName?
    induction headers with
    | nil => rfl
    | cons h headers ih =>
      obtain ⟨hfirst, hrest⟩ := List.forall_mem_cons.mp hmem
      rw [List.findSome?_cons, List.findSome?_cons, l.name?_return hfirst, ih hrest]
  exact hall _ fun _ hh => mem_headers_of_mem_braceHeaders hh

end Language

namespace FunctionSpan

variable {line line' : List Char} {i : Nat}

theorem headerAt_returns (language : Language) (h : List.Forall₂ ReturnAtEnd lines lines')
    (hline : ReturnAtEnd line line') (i : Nat) : headerAt language lines' line' i = headerAt language lines line i := by
  have hbraced : bracedAt language.braceHeaders lines' line' i = bracedAt language.braceHeaders lines line i := by
    unfold bracedAt
    rw [BraceBody.endLine?_returns h,
      hline.eq (f := fun line => headerName? language.braceHeaders line.toArray) (language.headerName?_return line)]
  cases language with
  | python =>
    show indentedAt lines' line' i = indentedAt lines line i
    unfold indentedAt
    rw [hline.eq (f := fun line => Header.python.name? line.toArray)
      (Language.python.name?_return (List.mem_singleton_self _) line)]
    cases hname : Header.python.name? line.toArray with
    | none => rfl
    | some name =>
      -- A line with a name is not blank, so its indentation does not reach the return.
      obtain ⟨_, hindents⟩ := Header.name?_python_iff.mp hname
      rw [hline.eq (Text.indent_return hindents.not_blank), IndentBody.signatureEnd_returns h,
        IndentBody.bodyEnd_returns h]
  | _ => exact hbraced

/-- **The functions of a text** are the same with a carriage return before every line feed. -/
theorem ofText_withReturns (language : Language) (text : List Char) :
    ofText language (Text.withEnds ['\r', '\n'] text) = ofText language text := by
  have hlines := Text.forall₂_lines_withReturns text
  rw [ofText_eq, ofText_eq, List.filterMap_eq_flatMap_toList, List.filterMap_eq_flatMap_toList]
  apply Text.flatMap_zipIdx_congr hlines
  intro line line' i _ hline
  exact congrArg Option.toList (headerAt_returns language hlines hline i)

end FunctionSpan

end SourceScan
