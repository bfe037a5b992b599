import SourceScan.Proofs.Function.Bounds
import SourceScan.Proofs.Function.MarkRun

/-!
# Functions in functions

A function whose header lies among the lines of another ends with it at the latest if the braces keep the outer
body open until the inner one opens (`StaysOpen`), and goes on at least as far if they do not
(`FunctionSpan.nested_functions`). The two ends come from two runs over the marks, each from its own header;
from the inner header on they go over the same marks, and the one that starts less deep ends no later.

They do not go over the same marks where the inner header is in a comment or a literal as read from the outer
one; nothing is said of such headers here.

A header without a body of its own does not keep to the function around it: `callingLast` has a call that reads
like a header and is followed by the brace that closes the function, and its span runs on into the next
function (`exists_beyond_callingLast`).
-/

namespace SourceScan

namespace BraceBody

variable {depth : Int} {opened : Bool} {before inner : List (Nat × Mark)} {outerEnd innerEnd : Option Nat}
  {lines : List (List Char)} {first last : Nat}

/-- The marks before the first opening brace. -/
def unopened (marks : List Mark) : List Mark := marks.takeWhile (· != .opens)

theorem unopened_append_opens {marks : List Mark} (h : ∀ m ∈ marks, m = .closes) (after : List Mark) :
    unopened (marks ++ .opens :: after) = marks := by
  rw [unopened, List.takeWhile_append_of_pos]
  · simp
  · intro m hm
    rw [h m hm]
    rfl

/-- The marks from an outer header up to an inner one, and those from the inner one on up to the brace that
opens its body, keep the outer body open: none are closed too many before the inner header, and if the outer
body has opened by then, the closing braces after it do not close that body. -/
def StaysOpen (before inner : List Mark) : Prop :=
  0 ≤ balance before ∧ (.opens ∈ before → .closes ∈ unopened inner → 0 < balance (before ++ unopened inner))

instance (before inner : List Mark) : Decidable (StaysOpen before inner) :=
  inferInstanceAs (Decidable (_ ∧ _))

/-- A run that does not end in the first part of its marks goes on from the balance of that part. -/
theorem settle_of_reaches (h : settle depth opened (before ++ inner) = some outerEnd)
    (hreach : ∀ line, outerEnd = some line → ∀ m ∈ before, m.1 < line) :
    settle (depth + balance (before.map Prod.snd)) (opened || (before.map Prod.snd).contains .opens) inner =
      some outerEnd := by
  induction before generalizing depth opened with
  | nil => simpa [balance_nil] using h
  | cons first rest ih =>
    obtain ⟨line, m⟩ := first
    have hrest := fun l hl m hm => hreach l hl m (List.mem_cons_of_mem _ hm)
    rw [List.map_cons, balance_cons, ← Int.add_assoc]
    cases m with
    | opens =>
      have hgoon := ih (show settle (depth + 1) true (rest ++ inner) = some outerEnd from h) hrest
      simpa [Mark.weight] using hgoon
    | closes =>
      rw [List.cons_append, settle] at h
      split at h
      · cases h
        exact absurd (hreach line rfl _ List.mem_cons_self) (Nat.lt_irrefl line)
      · exact ih h hrest
    | ends =>
      rw [List.cons_append, settle] at h
      split at h
      · next hopened =>
        have hgoon := ih h hrest
        simpa [Mark.weight, hopened] using hgoon
      · cases h

/-- A body that is closed in the first part of the marks ends no later than one that closes behind that part. -/
theorem noLater_of_closed {part later : List (Nat × Mark)}
    (hsorted : (part ++ later).Pairwise fun a b => a.1 ≤ b.1) (hin : .closes ∈ part.map Prod.snd)
    (hdown : depth + balance (part.map Prod.snd) ≤ 0) (houter : settle depth true (part ++ later) = some outerEnd)
    (hinner : ∀ k, innerEnd = some k → (k, .closes) ∈ later) : NoLater outerEnd innerEnd := by
  obtain ⟨l, hl, hsettle⟩ := exists_closes_of_balance hin hdown
  cases (hsettle _).symm.trans houter
  obtain ⟨_, _, hacross⟩ := List.pairwise_append.mp hsorted
  exact fun k hk => ⟨l, hacross _ hl _ (hinner k hk), rfl⟩

/-- **Two runs.** Of a run that reaches an inner header and the run from that header on, the inner one ends no
later if the outer body stays open, and the outer one ends no later if it does not. -/
theorem nested_runs (hsorted : inner.Pairwise fun a b => a.1 ≤ b.1)
    (houter : settle 0 false (before ++ inner) = some outerEnd) (hinner : settle 0 false inner = some innerEnd)
    (hreach : ∀ line, outerEnd = some line → ∀ m ∈ before, m.1 < line) :
    (StaysOpen (before.map Prod.snd) (inner.map Prod.snd) → NoLater innerEnd outerEnd) ∧
      (¬StaysOpen (before.map Prod.snd) (inner.map Prod.snd) → NoLater outerEnd innerEnd) := by
  have hfrom := settle_of_reaches houter hreach
  rw [Int.zero_add, Bool.false_or] at hfrom
  obtain ⟨lead, line, later, rfl, hlead⟩ := exists_lead hinner
  have hunopened : unopened ((lead ++ (line, Mark.opens) :: later).map Prod.snd) = lead.map Prod.snd := by
    rw [List.map_append, List.map_cons, unopened_append_opens hlead]
  have hbalance : balance (lead.map Prod.snd) = -lead.length := by
    rw [balance_closes_only hlead, List.length_map]
  rw [settle_lead hlead] at hinner
  rw [StaysOpen, hunopened, balance_append, hbalance]
  generalize before.map Prod.snd = seen at *
  have hlater := (List.pairwise_cons.mp (List.pairwise_append.mp hsorted).2.1).2
  -- Where both bodies have opened, the depths differ by the balance of the marks before the inner header.
  have hboth : settle (balance seen - lead.length + 1) true later = some outerEnd →
      (0 ≤ balance seen → NoLater innerEnd outerEnd) ∧ (balance seen ≤ 0 → NoLater outerEnd innerEnd) :=
    fun h => ⟨fun hle => settle_noLater (by omega) hlater hinner h,
      fun hle => settle_noLater (by omega) hlater h hinner⟩
  cases hopened : seen.contains Mark.opens with
  | false =>
    have hnone : Mark.opens ∉ seen := fun hin => by
      rw [List.contains_iff_mem.mpr hin] at hopened
      cases hopened
    rw [hopened, settle_lead hlead] at hfrom
    obtain ⟨hinside, hbeyond⟩ := hboth hfrom
    refine ⟨fun hstays => hinside hstays.1, fun hnot => hbeyond ?_⟩
    apply Classical.byContradiction
    intro hpos
    exact hnot ⟨by omega, fun hin => absurd hin hnone⟩
  | true =>
    have hin : Mark.opens ∈ seen := List.contains_iff_mem.mp hopened
    rw [hopened] at hfrom
    by_cases hclosed : .closes ∈ lead.map Prod.snd ∧ balance seen - lead.length ≤ 0
    · -- The outer body closes before the inner one opens.
      have hdown : balance seen + balance (lead.map Prod.snd) ≤ 0 := by
        rw [hbalance]
        exact hclosed.2
      have hends := noLater_of_closed hsorted hclosed.1 hdown hfrom fun k hk =>
        List.mem_cons_of_mem _ (mem_of_settle (hinner.trans (congrArg some hk)))
      refine ⟨fun hstays => ?_, fun _ => hends⟩
      have := hstays.2 hin hclosed.1
      omega
    · have hpos : .closes ∈ lead.map Prod.snd → 0 < balance seen - lead.length :=
        fun hin => Int.not_le.mp fun hle => hclosed ⟨hin, hle⟩
      rw [settle_closes_only hlead hpos] at hfrom
      obtain ⟨hinside, hbeyond⟩ := hboth hfrom
      refine ⟨fun hstays => hinside hstays.1, fun hnot => hbeyond ?_⟩
      apply Classical.byContradiction
      intro hdeep
      exact hnot ⟨by omega, fun _ hin => by have := hpos hin; omega⟩

end BraceBody

namespace FunctionSpan

open BraceBody

variable {language : Language} {text : List Char} {lines : List (List Char)} {f g : FunctionSpan}

/-- The last line of a function, counted from 1. -/
def lastLine (f : FunctionSpan) : Nat := f.startLine + f.lines - 1

theorem mem_ofText_braced (hl : language ≠ .python) :
    f ∈ ofText language text ↔ ∃ i line name last, (Text.lines text)[i]? = some line ∧
      headerName? language.braceHeaders line.toArray = some name ∧
      endLine? (Text.lines text) i = some last ∧ f = ofIndices name i last := by
  have hbraced : ofText language text = (Text.lines text).zipIdx.filterMap fun header =>
      bracedAt language.braceHeaders (Text.lines text) header.1 header.2 := by
    cases language with
    | python => exact absurd rfl hl
    | _ => rfl
  rw [hbraced, List.mem_filterMap]
  constructor
  · rintro ⟨⟨line, i⟩, hmem, hf⟩
    obtain ⟨name, hname, hf⟩ := Option.bind_eq_some_iff.mp hf
    obtain ⟨last, hlast, hf⟩ := Option.bind_eq_some_iff.mp hf
    cases hf
    exact ⟨i, line, name, last, List.mem_zipIdx_iff_getElem?.mp hmem, hname, hlast, rfl⟩
  · rintro ⟨i, line, name, last, hline, hname, hlast, rfl⟩
    refine ⟨(line, i), List.mem_zipIdx_iff_getElem?.mpr hline, ?_⟩
    simp only [bracedAt, hname, hlast]
    rfl

/-- The function that begins on a line has the line's name and goes on to the end of the body that begins on the line
or after it. -/
theorem mem_ofText_startLine_iff (hl : language ≠ .python) {i : Nat} {line : List Char}
    (hline : (Text.lines text)[i]? = some line) :
    f ∈ ofText language text ∧ f.startLine = i + 1 ↔
      ∃ name last, headerName? language.braceHeaders line.toArray = some name ∧
        endLine? (Text.lines text) i = some last ∧ f = ofIndices name i last := by
  rw [mem_ofText_braced hl]
  constructor
  · rintro ⟨⟨j, header, name, last, hheader, hname, hlast, rfl⟩, hstart⟩
    obtain rfl : j = i := Nat.succ.inj hstart
    cases hheader.symm.trans hline
    exact ⟨name, last, hname, hlast, rfl⟩
  · rintro ⟨name, last, hname, hlast, rfl⟩
    exact ⟨⟨i, line, name, last, hline, hname, hlast, rfl⟩, rfl⟩

/-- The lines from an inner header on have the same marks read from there as read from the outer header. -/
def ReadAlike (lines : List (List Char)) (outer inner : Nat) : Prop :=
  codeMarks lines inner = (codeMarks lines outer).drop (inner - outer)

/-- The braces keep the body of the outer header open until that of the inner one opens. -/
def KeepsOpen (lines : List (List Char)) (outer inner : Nat) : Prop :=
  StaysOpen ((codeMarks lines outer).take (inner - outer)).flatten (codeMarks lines inner).flatten

instance (lines : List (List Char)) (outer inner : Nat) : Decidable (ReadAlike lines outer inner) :=
  inferInstanceAs (Decidable (_ = _))

instance (lines : List (List Char)) (outer inner : Nat) : Decidable (KeepsOpen lines outer inner) :=
  inferInstanceAs (Decidable (StaysOpen _ _))

/-- The marks from the outer header on, split at the inner header's line. -/
theorem numbered_codeMarks_split {outer inner : Nat} (hle : outer ≤ inner) (hlt : inner < lines.length)
    (hread : ReadAlike lines outer inner) :
    numbered outer (codeMarks lines outer) =
      numbered outer ((codeMarks lines outer).take (inner - outer)) ++ numbered inner (codeMarks lines inner) := by
  have hlength : ((codeMarks lines outer).take (inner - outer)).length = inner - outer := by
    rw [List.length_take, length_codeMarks]
    omega
  conv => lhs; rw [← List.take_append_drop (inner - outer) (codeMarks lines outer), numbered_append, hlength]
  rw [ReadAlike] at hread
  rw [← hread, Nat.add_sub_cancel' hle]

/-- **Functions in functions.** The header of `g` is among the lines of `f`, and the lines from there on have
the same marks for both. If the braces keep the body of `f` open until that of `g` opens, `g` ends with `f` at
the latest; if they do not, `g` goes on at least as far as `f`. -/
theorem nested_functions (hl : language ≠ .python) (hf : f ∈ ofText language text)
    (hg : g ∈ ofText language text) (hlt : f.startLine < g.startLine) (hle : g.startLine ≤ f.lastLine)
    (hread : ReadAlike (Text.lines text) (f.startLine - 1) (g.startLine - 1)) :
    (KeepsOpen (Text.lines text) (f.startLine - 1) (g.startLine - 1) → g.lastLine ≤ f.lastLine) ∧
      (¬KeepsOpen (Text.lines text) (f.startLine - 1) (g.startLine - 1) → f.lastLine ≤ g.lastLine) := by
  obtain ⟨i, _, _, lastf, _, _, hendf, rfl⟩ := (mem_ofText_braced hl).mp hf
  obtain ⟨j, _, _, lastg, _, _, hendg, rfl⟩ := (mem_ofText_braced hl).mp hg
  generalize Text.lines text = lines at *
  obtain ⟨hif, hflt⟩ := endLine?_bounds hendf
  obtain ⟨hjg, hglt⟩ := endLine?_bounds hendg
  simp only [ofIndices, lastLine, Nat.add_sub_cancel] at hlt hle hread ⊢
  have hij : i ≤ j := by omega
  have hsplit := numbered_codeMarks_split hij (by omega) hread
  rw [endLine?_settle] at hendf hendg
  obtain ⟨outerEnd, houter, rfl⟩ := Option.map_eq_some_iff.mp hendf
  obtain ⟨innerEnd, hinner, rfl⟩ := Option.map_eq_some_iff.mp hendg
  rw [hsplit] at houter
  obtain ⟨hinside, hbeyond⟩ := nested_runs (pairwise_numbered _ _) houter hinner fun line hline m hm => by
    have hbound := (bounds_of_mem_numbered hm).2
    rw [List.length_take] at hbound
    rw [hline, Option.getD_some] at hle
    omega
  rw [map_snd_numbered, map_snd_numbered] at hinside hbeyond
  refine ⟨fun hstays => ?_, fun hnot => ?_⟩
  · have := (hinside hstays).getD_le (lines.length - 1) (by omega)
    omega
  · have := (hbeyond hnot).getD_le (lines.length - 1) (by omega)
    omega

/-- A function in a function. -/
def insideText : List Char := "function f() \x7b\n  function g() \x7b\n  \x7d\n\x7d".toList

/-- The inner function ends before the outer one does. -/
theorem nested_functions_inside :
    ofText .javascript insideText = [⟨"f", 4, 1⟩, ⟨"g", 2, 2⟩] ∧ ReadAlike (Text.lines insideText) 0 1 ∧
      KeepsOpen (Text.lines insideText) 0 1 ∧ lastLine ⟨"g", 2, 2⟩ ≤ lastLine ⟨"f", 4, 1⟩ := by
  have hspans : ofText .javascript insideText = [⟨"f", 4, 1⟩, ⟨"g", 2, 2⟩] := by decide +kernel
  have hread : ReadAlike (Text.lines insideText) 0 1 := by decide +kernel
  have hkeeps : KeepsOpen (Text.lines insideText) 0 1 := by decide +kernel
  have hf : ⟨"f", 4, 1⟩ ∈ ofText .javascript insideText := by
    rw [hspans]
    exact List.mem_cons_self
  have hg : ⟨"g", 2, 2⟩ ∈ ofText .javascript insideText := by
    rw [hspans]
    exact List.mem_cons_of_mem _ List.mem_cons_self
  have hlt : (⟨"f", 4, 1⟩ : FunctionSpan).startLine < (⟨"g", 2, 2⟩ : FunctionSpan).startLine := by decide
  have hle : (⟨"g", 2, 2⟩ : FunctionSpan).startLine ≤ lastLine ⟨"f", 4, 1⟩ := by decide
  have hends := nested_functions (by decide) hf hg hlt hle hread
  exact ⟨hspans, hread, hkeeps, hends.1 hkeeps⟩

/-- A function that ends with a call without a semicolon, and another function after it. -/
def callingLast : List Char :=
  "func f() throws \x7b\n    try g(1)\n\x7d\nfunc h() throws \x7b\n\x7d".toList

/-- The call reads like a header inside the first function, and its span goes on after that function. -/
theorem exists_beyond_callingLast :
    ∃ f g, f ∈ ofText .cFamily callingLast ∧ g ∈ ofText .cFamily callingLast ∧ f.startLine < g.startLine ∧
      g.startLine ≤ f.lastLine ∧ f.lastLine < g.lastLine := by
  have hspans : ofText .cFamily callingLast = [⟨"f", 3, 1⟩, ⟨"g", 4, 2⟩, ⟨"h", 2, 4⟩] := by decide +kernel
  rw [hspans]
  exact ⟨⟨"f", 3, 1⟩, ⟨"g", 4, 2⟩, by simp, by simp, by decide, by decide, by decide⟩

end FunctionSpan

end SourceScan
