import SourceScan.Function.Span
import SourceScan.Pattern.Lemmas
import SourceScan.Proofs.Text.Lines

/-!
# Functions lie in their text

Both searches for the end of a function stop at the end of the text: the search for the closing brace
(`BraceBody.endLine?_bounds`), also where the braces never balance, and the search for the last indented
line (`IndentBody.bodyEnd_bounds`), also where the brackets of the signature never do. So the lines that
a function spans are lines of its text, and the first of them is a header with the function's name
(`FunctionSpan.mem_ofText_bounds`); a line is the first of one function at most
(`FunctionSpan.pairwise_startLine_ofText`).
-/

namespace SourceScan

namespace BraceBody

variable {s : State} {passed start n : Nat} {lines : List (List Char)}

/-- The end is among the lines read. Once a brace was met there is a line behind. -/
theorem endFrom_bounds (hopened : s.opened = true → 0 < passed)
    (h : endFrom s passed lines = some n) : n < passed + lines.length := by
  induction lines generalizing s passed with
  | nil =>
    rw [endFrom] at h
    split at h
    · next ho =>
      have hpos := hopened ho
      cases h
      rw [List.length_nil]
      omega
    · cases h
  | cons line rest ih =>
    rw [endFrom] at h
    rw [List.length_cons]
    split at h
    · have hlt := ih (fun _ => Nat.succ_pos passed) h
      omega
    · cases h
      omega
    · cases h

theorem endLine?_bounds (h : endLine? lines start = some n) : start ≤ n ∧ n < lines.length := by
  obtain ⟨m, hm, rfl⟩ := Option.map_eq_some_iff.mp h
  have hlt := endFrom_bounds (fun ho => absurd ho Bool.false_ne_true) hm
  rw [List.length_drop] at hlt
  omega

end BraceBody

namespace IndentBody

variable {lines : List (List Char)} {depth : Int} {passed start n : Nat}

theorem balancedAfter_bounds (h : balancedAfter depth passed lines = some n) :
    n < passed + lines.length := by
  induction lines generalizing depth passed with
  | nil => cases h
  | cons line rest ih =>
    rw [balancedAfter] at h
    rw [List.length_cons]
    split at h
    · cases h
      omega
    · have hlt := ih h
      omega

theorem signatureEnd_bounds (h : start < lines.length) :
    start ≤ signatureEnd lines start ∧ signatureEnd lines start < lines.length := by
  rw [signatureEnd]
  cases hb : balancedAfter 0 0 (lines.drop start) with
  | none =>
    rw [Option.getD_none]
    omega
  | some n =>
    have hlt := balancedAfter_bounds hb
    rw [List.length_drop] at hlt
    rw [Option.getD_some]
    omega

/-- The body ends on the last line that is known to belong to it or on one of those that come next. -/
theorem bodyEndFrom_bounds (indent : Int) (last next : Nat) (lines : List (List Char)) :
    bodyEndFrom indent last next lines = last ∨
      next ≤ bodyEndFrom indent last next lines ∧
        bodyEndFrom indent last next lines < next + lines.length := by
  induction lines generalizing last next with
  | nil => exact Or.inl rfl
  | cons line rest ih =>
    rw [bodyEndFrom, List.length_cons]
    split
    · have hnext := ih last (next + 1)
      omega
    · split
      · have hnext := ih next (next + 1)
        omega
      · exact Or.inl rfl

theorem bodyEnd_bounds (indent : Int) (h : start < lines.length) :
    start ≤ bodyEnd lines start indent ∧ bodyEnd lines start indent < lines.length := by
  have hbody := bodyEndFrom_bounds indent start (start + 1) (lines.drop (start + 1))
  rw [List.length_drop] at hbody
  rw [bodyEnd]
  omega

end IndentBody

namespace Header

/-- A line reads as the header: what comes before the name, the name as a word, and what follows it. -/
def Names (h : Header) (line : Array Char) (name : String) : Prop :=
  ∃ i j k, Pattern.Spans line h.lead 0 i ∧ Pattern.Spans line Pattern.word1 i j ∧
    Pattern.Spans line h.tail j k ∧ name = String.ofList (line.extract i j).toList

variable {h : Header} {line : Array Char} {name : String}

theorem mem_endsFrom {t : Array Char} {p : Pattern} {i j : Nat} :
    j ∈ endsFrom t p i ↔ Pattern.Spans t p i j := by
  rw [endsFrom, Pattern.mem_reach]
  simp only [List.mem_singleton, exists_eq_left]

/-- The name found in a line is one that the line reads as. -/
theorem names_of_name? (hname : h.name? line = some name) : h.Names line name := by
  obtain ⟨i, hi, hname⟩ := List.exists_of_findSome?_eq_some hname
  obtain ⟨j, hj, hname⟩ := List.exists_of_findSome?_eq_some hname
  split at hname
  · cases hname
  · next htail =>
    cases hname
    obtain ⟨k, hk⟩ := List.exists_mem_of_ne_nil _ (by simpa using htail)
    exact ⟨i, j, k, mem_endsFrom.mp hi, mem_endsFrom.mp hj, mem_endsFrom.mp hk, rfl⟩

end Header

namespace Language

/-- The headers of a language, in the order in which they are tried. -/
def headers : Language → List Header
  | python => [Header.python]
  | l => l.braceHeaders

/-- A line is a header of a function of the name. Where bodies stand in braces, some words are no
names. -/
def IsHeader (l : Language) (line : List Char) (name : String) : Prop :=
  ∃ h ∈ l.headers, h.Names line.toArray name ∧ (l ≠ python → name ∉ notNames)

variable {l : Language} {line : List Char} {name : String}

theorem mem_headers_of_mem_braceHeaders {h : Header} (hh : h ∈ l.braceHeaders) : h ∈ l.headers := by
  cases l with
  | python => cases hh
  | _ => exact hh

theorem isHeader_of_name? (h : Header.python.name? line.toArray = some name) :
    python.IsHeader line name :=
  ⟨Header.python, List.mem_singleton_self _, Header.names_of_name? h, fun hne => absurd rfl hne⟩

theorem isHeader_of_headerName? (h : headerName? l.braceHeaders line.toArray = some name) :
    l.IsHeader line name := by
  obtain ⟨header, hmem, hname⟩ := List.exists_of_findSome?_eq_some h
  obtain ⟨hname, hnot⟩ := Option.filter_eq_some_iff.mp hname
  refine ⟨header, mem_headers_of_mem_braceHeaders hmem, Header.names_of_name? hname, fun _ hin => ?_⟩
  rw [List.contains_iff_mem.mpr hin] at hnot
  cases hnot

end Language

namespace FunctionSpan

variable {language : Language} {text : List Char} {f : FunctionSpan} {first last : Nat}
  {lines : List (List Char)} {line : List Char} {name : String}

theorem ofIndices_bounds (name : String) (hle : first ≤ last) (hlt : last < lines.length) :
    1 ≤ (ofIndices name first last).startLine ∧ 1 ≤ (ofIndices name first last).lines ∧
      (ofIndices name first last).startLine + (ofIndices name first last).lines - 1 ≤
        lines.length := by
  simp only [ofIndices]
  omega

/-- The lines of a function found in a text are lines of the text, and the first of them is a header
with its name. -/
theorem mem_ofText_bounds (h : f ∈ ofText language text) :
    1 ≤ f.startLine ∧ 1 ≤ f.lines ∧ f.startLine + f.lines - 1 ≤ (Text.lines text).length ∧
      ∃ line, (Text.lines text)[f.startLine - 1]? = some line ∧ language.IsHeader line f.name := by
  obtain ⟨⟨line, i⟩, hmem, hf⟩ := List.mem_filterMap.mp h
  have hline : (Text.lines text)[i]? = some line := List.mem_zipIdx_iff_getElem?.mp hmem
  have hi : i < (Text.lines text).length := (List.getElem?_eq_some_iff.mp hline).1
  have braced : ∀ l : Language, bracedAt l.braceHeaders (Text.lines text) line i = some f →
      1 ≤ f.startLine ∧ 1 ≤ f.lines ∧ f.startLine + f.lines - 1 ≤ (Text.lines text).length ∧
        ∃ line, (Text.lines text)[f.startLine - 1]? = some line ∧ l.IsHeader line f.name := by
    intro l hf
    obtain ⟨name, hname, hf⟩ := Option.bind_eq_some_iff.mp hf
    obtain ⟨last, hlast, hf⟩ := Option.bind_eq_some_iff.mp hf
    cases hf
    obtain ⟨hle, hlt⟩ := BraceBody.endLine?_bounds hlast
    obtain ⟨h1, h2, h3⟩ := ofIndices_bounds name hle hlt
    exact ⟨h1, h2, h3, line, hline, Language.isHeader_of_headerName? hname⟩
  cases language with
  | python =>
    obtain ⟨name, hname, rfl⟩ := Option.map_eq_some_iff.mp hf
    obtain ⟨hsle, hslt⟩ := IndentBody.signatureEnd_bounds hi
    obtain ⟨hble, hblt⟩ := IndentBody.bodyEnd_bounds (Text.indent line) hslt
    obtain ⟨h1, h2, h3⟩ := ofIndices_bounds name (Nat.le_trans hsle hble) hblt
    exact ⟨h1, h2, h3, line, hline, Language.isHeader_of_name? hname⟩
  | _ => exact braced _ hf

theorem startLine_of_indentedAt {i : Nat} (h : indentedAt lines line i = some f) :
    f.startLine = i + 1 := by
  obtain ⟨name, _, rfl⟩ := Option.map_eq_some_iff.mp h
  rfl

theorem startLine_of_bracedAt {headers : List Header} {i : Nat}
    (h : bracedAt headers lines line i = some f) : f.startLine = i + 1 := by
  obtain ⟨name, _, h⟩ := Option.bind_eq_some_iff.mp h
  obtain ⟨last, _, h⟩ := Option.bind_eq_some_iff.mp h
  cases h
  rfl

/-- The functions of a text are listed in the order of their first lines, and no two begin on one. -/
theorem pairwise_startLine_ofText (language : Language) (text : List Char) :
    (ofText language text).Pairwise fun f g => f.startLine < g.startLine := by
  have hnumbers : ((Text.lines text).zipIdx.map Prod.snd).Pairwise (· < ·) := by
    rw [List.zipIdx_map_snd]
    exact List.pairwise_lt_range'
  refine List.pairwise_filterMap.mpr ((List.pairwise_map.mp hnumbers).imp ?_)
  intro x y hlt f hf g hg
  cases language with
  | python =>
    rw [startLine_of_indentedAt hf, startLine_of_indentedAt hg]
    exact Nat.succ_lt_succ hlt
  | _ =>
    rw [startLine_of_bracedAt hf, startLine_of_bracedAt hg]
    exact Nat.succ_lt_succ hlt

end FunctionSpan

end SourceScan
