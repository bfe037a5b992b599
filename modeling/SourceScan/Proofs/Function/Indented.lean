import Mathlib.Data.List.TakeWhile
import Mathlib.Data.Nat.Find
import SourceScan.Proofs.Function.HeaderName

/-!
# Where an indented function ends

The end of an indented function said without the two searches for it. Its signature ends on the first line at
which, counted from the header's line on, no more round and square brackets were opened than closed
(`SignatureEndsOn`). Its body ends on a line that is not blank, or with the signature, so that all lines
between are blank or indented more than the header, and the first one after it that is not blank is indented
no more (`BodyEndsOn`). So blank lines in the body belong to it, and those after it do not.

Each of the two holds of one line (`SignatureEndsOn.unique`, `BodyEndsOn.unique`), and the search finds that
line (`signatureEndsOn_signatureEnd`, `bodyEndsOn_bodyEnd`). The header's own indentation is the blanks that
its line begins with, however the header is read (`Header.Indents.indent_eq`). So the functions of a text are
its header lines, one function to each (`FunctionSpan.indented_functions`).
-/

namespace SourceScan

namespace Text

variable {line : List Char}

/-- A line of blanks. -/
def Blank (line : List Char) : Prop := ∀ c ∈ line, isBlank c = true

theorem stripStart_eq_nil_iff : stripStart line = [] ↔ Blank line := List.dropWhile_eq_nil_iff

theorem isEmpty_strip_iff : (strip line).isEmpty = true ↔ Blank line := by
  rw [strip, List.isEmpty_reverse, List.isEmpty_iff, stripStart_eq_nil_iff]
  constructor
  · intro hrest c hc
    rw [← List.takeWhile_append_dropWhile (p := isBlank) (l := line)] at hc
    rcases List.mem_append.mp hc with hc | hc
    · exact List.mem_takeWhile_imp hc
    · exact hrest c (List.mem_reverse.mpr hc)
  · intro h c hc
    exact h c ((List.dropWhile_sublist isBlank).mem (List.mem_reverse.mp hc))

end Text

namespace IndentBody

variable {lines : List (List Char)} {line : List Char} {first start indent last last' next : Nat}

/-! ## The end of a signature -/

/-- The round and square brackets that a line opens less those that it closes, up to the first `#`. -/
def opened (line : List Char) : Int :=
  let code := line.takeWhile (· != '#')
  (code.count '(' + code.count '[' : Int) - (code.count ')' + code.count ']')

/-- The brackets that lines open less those that they close. -/
def openOver (lines : List (List Char)) : Int := lines.foldr (fun line n => opened line + n) 0

theorem openOver_cons (line : List Char) (lines : List (List Char)) :
    openOver (line :: lines) = opened line + openOver lines := rfl

theorem add_openOver_take_cons (depth : Int) (line : List Char) (lines : List (List Char)) (j : Nat) :
    depth + openOver ((line :: lines).take (j + 1)) = depth + opened line + openOver (lines.take j) := by
  rw [List.take_succ_cons, openOver_cons, Int.add_assoc]

/-- The brackets that are open after line `last`, counted from line `first` on. -/
def openAfter (lines : List (List Char)) (first last : Nat) : Int :=
  openOver ((lines.drop first).take (last + 1 - first))

/-- The signature that begins on line `first` ends on line `last`: the first line after which no bracket is
open, or the header's own line if there is none. -/
def SignatureEndsOn (lines : List (List Char)) (first last : Nat) : Prop :=
  (first ≤ last ∧ last < lines.length ∧ openAfter lines first last ≤ 0 ∧
      ∀ j, first ≤ j → j < last → 0 < openAfter lines first j) ∨
    (last = first ∧ ∀ j, first ≤ j → j < lines.length → 0 < openAfter lines first j)

/-- A signature ends on one line. -/
theorem SignatureEndsOn.unique (h : SignatureEndsOn lines first last)
    (h' : SignatureEndsOn lines first last') : last = last' := by
  rcases h with ⟨hle, hlt, hclosed, hopen⟩ | ⟨rfl, hnever⟩
  · rcases h' with ⟨hle', hlt', hclosed', hopen'⟩ | ⟨rfl, hnever'⟩
    · rcases Nat.lt_trichotomy last last' with hless | heq | hmore
      · have := hopen' last hle hless
        omega
      · exact heq
      · have := hopen last' hle' hmore
        omega
    · have := hnever' last hle hlt
      omega
  · rcases h' with ⟨hle', hlt', hclosed', hopen'⟩ | ⟨rfl, hnever'⟩
    · have := hnever last' hle' hlt'
      omega
    · rfl

theorem foldl_brackets (code : List Char) (n : Int) :
    code.foldl (fun n c => if c == '(' || c == '[' then n + 1 else if c == ')' || c == ']' then n - 1 else n) n =
      n + ((code.count '(' + code.count '[' : Int) - (code.count ')' + code.count ']')) := by
  induction code generalizing n with
  | nil => simp
  | cons c code ih =>
    rw [List.foldl_cons, ih]
    grind

theorem balance_eq (line : List Char) : balance line = opened line := by
  rw [balance, foldl_brackets, opened, Int.zero_add]

/-- The search stops at the first line after which no bracket is open, and finds none only if some are open
after each line. -/
theorem balancedAfter_spec (depth : Int) (passed : Nat) (lines : List (List Char)) :
    (∀ n, balancedAfter depth passed lines = some n → ∃ k, n = passed + k ∧ k < lines.length ∧
        depth + openOver (lines.take (k + 1)) ≤ 0 ∧ ∀ j, j < k → 0 < depth + openOver (lines.take (j + 1))) ∧
      (balancedAfter depth passed lines = none →
        ∀ j, j < lines.length → 0 < depth + openOver (lines.take (j + 1))) := by
  induction lines generalizing depth passed with
  | nil =>
    constructor
    · intro n hn
      cases hn
    · intro _ j hj
      exact absurd hj (Nat.not_lt_zero j)
  | cons line rest ih =>
    rw [balancedAfter, balance_eq]
    have hzero : openOver (rest.take 0) = 0 := rfl
    simp only [add_openOver_take_cons]
    by_cases hclosed : depth + opened line ≤ 0
    · simp only [if_pos hclosed]
      constructor
      · intro n hn
        cases hn
        refine ⟨0, rfl, Nat.succ_pos _, ?_, fun j hj => absurd hj (Nat.not_lt_zero j)⟩
        rw [hzero]
        omega
      · intro hn
        cases hn
    · simp only [if_neg hclosed]
      obtain ⟨hsome, hnone⟩ := ih (depth + opened line) (passed + 1)
      have hopen : ∀ m, (∀ j, j < m → 0 < depth + opened line + openOver (rest.take (j + 1))) →
          ∀ j, j < m + 1 → 0 < depth + opened line + openOver (rest.take j) := by
        intro m hm j hj
        cases j with
        | zero =>
          rw [hzero]
          omega
        | succ j => exact hm j (Nat.lt_of_succ_lt_succ hj)
      constructor
      · intro n hn
        obtain ⟨k, rfl, hlt, hsum, hbefore⟩ := hsome n hn
        exact ⟨k + 1, by omega, Nat.succ_lt_succ hlt, hsum, hopen k hbefore⟩
      · exact fun hn => hopen rest.length (hnone hn)

theorem signatureEndsOn_signatureEnd (lines : List (List Char)) (first : Nat) :
    SignatureEndsOn lines first (signatureEnd lines first) := by
  obtain ⟨hsome, hnone⟩ := balancedAfter_spec 0 0 (lines.drop first)
  have hopen : ∀ j, openAfter lines first (first + j) = 0 + openOver ((lines.drop first).take (j + 1)) := by
    intro j
    rw [openAfter, Int.zero_add, Nat.add_assoc, Nat.add_sub_cancel_left]
  have hfrom : ∀ m, (∀ j, j < m → 0 < 0 + openOver ((lines.drop first).take (j + 1))) →
      ∀ j, first ≤ j → j < first + m → 0 < openAfter lines first j := by
    intro m hm j hle hlt
    obtain ⟨j, rfl⟩ := Nat.exists_eq_add_of_le hle
    rw [hopen]
    exact hm j (by omega)
  rw [signatureEnd]
  cases hn : balancedAfter 0 0 (lines.drop first) with
  | some n =>
    obtain ⟨k, rfl, hlt, hsum, hbefore⟩ := hsome n hn
    rw [List.length_drop] at hlt
    rw [Option.getD_some, Nat.zero_add]
    refine Or.inl ⟨Nat.le_add_right first k, by omega, ?_, hfrom k hbefore⟩
    rw [hopen]
    exact hsum
  | none =>
    rw [Option.getD_none, Nat.add_zero]
    refine Or.inr ⟨rfl, fun j hle hlt => hfrom _ (hnone hn) j hle ?_⟩
    rw [List.length_drop]
    omega

/-! ## The end of a body -/

/-- The lines after the signature up to `last` belong to a body indented more than `indent`, and `last` is not
blank unless the signature ends on it. -/
structure Reaches (lines : List (List Char)) (start indent last : Nat) : Prop where
  start_le : start ≤ last
  inside : ∀ j line, start < j → j ≤ last → lines[j]? = some line →
    Text.Blank line ∨ indent < Text.indent line
  filled : last = start ∨ ∃ line, lines[last]? = some line ∧ ¬Text.Blank line

/-- The body after a signature that ends on line `start` ends on line `last`: it reaches that far, and the
first line after it that is not blank is indented no more than the header. -/
structure BodyEndsOn (lines : List (List Char)) (start indent last : Nat) : Prop
    extends Reaches lines start indent last where
  ends : ∀ j line, last < j → lines[j]? = some line → ¬Text.Blank line →
    (∀ k between, last < k → k < j → lines[k]? = some between → Text.Blank between) →
    Text.indent line ≤ indent

/-- The body goes on no further than where it ends: the first line in between that is not blank would have
to be indented more. -/
theorem BodyEndsOn.not_reaches (h : BodyEndsOn lines start indent last) (hlt : last < last') :
    ¬Reaches lines start indent last' := by
  intro h'
  rcases h'.filled with rfl | ⟨line, hline, hfilled⟩
  · exact absurd h.start_le (Nat.not_le_of_lt hlt)
  · -- The first line after `last` that is not blank is no later than `last'`.
    have hsome : ∃ j, last < j ∧ ∃ line, lines[j]? = some line ∧ ¬Text.Blank line :=
      ⟨last', hlt, line, hline, hfilled⟩
    classical
    obtain ⟨hfirst, found, hfound, hnot⟩ := Nat.find_spec hsome
    have hle : Nat.find hsome ≤ last' := Nat.find_min' hsome ⟨hlt, line, hline, hfilled⟩
    have hshallow := h.ends _ found hfirst hfound hnot fun k between hk hlt hbetween => by
      apply Classical.byContradiction
      intro hblank
      exact Nat.find_min hsome hlt ⟨hk, between, hbetween, hblank⟩
    rcases h'.inside _ found (Nat.lt_of_le_of_lt h.start_le hfirst) hle hfound with hblank | hdeep
    · exact hnot hblank
    · omega

/-- A body ends on one line. -/
theorem BodyEndsOn.unique (h : BodyEndsOn lines start indent last) (h' : BodyEndsOn lines start indent last') :
    last = last' := by
  rcases Nat.lt_trichotomy last last' with hlt | heq | hlt
  · exact absurd h'.toReaches (h.not_reaches hlt)
  · exact heq
  · exact absurd h.toReaches (h'.not_reaches hlt)

/-- The first line after `last` that is not blank belongs to the body if it is indented more. -/
theorem Reaches.goesOn (h : Reaches lines start indent last) (hnext : last < next)
    (hblank : ∀ j line, last < j → j < next → lines[j]? = some line → Text.Blank line)
    (hline : lines[next]? = some line) (hfilled : ¬Text.Blank line) (hdeep : indent < Text.indent line) :
    Reaches lines start indent next where
  start_le := Nat.le_of_lt (Nat.lt_of_le_of_lt h.start_le hnext)
  inside j other hj hle hother := by
    rcases Nat.lt_or_eq_of_le hle with hlt | rfl
    · rcases Nat.lt_or_ge last j with hlast | hlast
      · exact Or.inl (hblank j other hlast hlt hother)
      · exact h.inside j other hj hlast hother
    · cases hline.symm.trans hother
      exact Or.inr hdeep
  filled := Or.inr ⟨line, hline, hfilled⟩

/-- The body ends before the first line after `last` that is not blank if that is indented no more. -/
theorem Reaches.endsOn (h : Reaches lines start indent last) (hnext : last < next)
    (hblank : ∀ j line, last < j → j < next → lines[j]? = some line → Text.Blank line)
    (hline : lines[next]? = some line) (hfilled : ¬Text.Blank line) (hshallow : Text.indent line ≤ indent) :
    BodyEndsOn lines start indent last := by
  refine { h with ends := fun j other hj hother hnot hbetween => ?_ }
  rcases Nat.lt_trichotomy j next with hlt | rfl | hlt
  · exact absurd (hblank j other hj hlt hother) hnot
  · cases hline.symm.trans hother
    exact hshallow
  · exact absurd (hbetween next line hnext hlt hline) hfilled

/-- The search for the end, where the body reaches `last` and all lines from there to `next` are blank. -/
theorem bodyEndsOn_bodyEndFrom {rest : List (List Char)} (hrest : lines.drop next = rest)
    (hreaches : Reaches lines start indent last) (hnext : last < next)
    (hblank : ∀ j line, last < j → j < next → lines[j]? = some line → Text.Blank line) :
    BodyEndsOn lines start indent (bodyEndFrom indent last next rest) := by
  induction rest generalizing last next with
  | nil =>
    have hlength := List.drop_eq_nil_iff.mp hrest
    refine { hreaches with ends := fun j line hj hline hnot _ => ?_ }
    have hlt := (List.getElem?_eq_some_iff.mp hline).1
    exact absurd (hblank j line hj (by omega) hline) hnot
  | cons line rest ih =>
    have hline : lines[next]? = some line := by
      rw [← List.head?_drop, hrest]
      rfl
    have hrest' : lines.drop (next + 1) = rest := by
      rw [← List.tail_drop, hrest]
      rfl
    rw [bodyEndFrom]
    by_cases hempty : (Text.strip line).isEmpty = true
    · rw [if_pos hempty]
      refine ih hrest' hreaches (Nat.lt_succ_of_lt hnext) fun j other hj hlt hother => ?_
      rcases Nat.lt_or_eq_of_le (Nat.le_of_lt_succ hlt) with hlt | rfl
      · exact hblank j other hj hlt hother
      · cases hline.symm.trans hother
        exact Text.isEmpty_strip_iff.mp hempty
    · rw [if_neg hempty]
      have hfilled : ¬Text.Blank line := fun hline => hempty (Text.isEmpty_strip_iff.mpr hline)
      by_cases hdeep : (indent : Int) < Text.indent line
      · rw [if_pos hdeep]
        have hreaches' := hreaches.goesOn hnext hblank hline hfilled (Int.ofNat_lt.mp hdeep)
        exact ih hrest' hreaches' (Nat.lt_succ_self next) fun j _ hj hlt => by omega
      · rw [if_neg hdeep]
        exact hreaches.endsOn hnext hblank hline hfilled (by omega)

theorem bodyEndsOn_bodyEnd (lines : List (List Char)) (start indent : Nat) :
    BodyEndsOn lines start indent (bodyEnd lines start indent) := by
  refine bodyEndsOn_bodyEndFrom rfl ⟨Nat.le_refl start, fun j _ hj hle => ?_, Or.inl rfl⟩
    (Nat.lt_succ_self start) fun j _ hj hlt => ?_ <;> omega

/-! ## The end of a function -/

/-- The function whose header is line `first`, indented by `indent` blanks, ends on line `last`. -/
def EndsOn (lines : List (List Char)) (first indent last : Nat) : Prop :=
  ∃ start, SignatureEndsOn lines first start ∧ BodyEndsOn lines start indent last

theorem endsOn_iff : EndsOn lines first indent last ↔ bodyEnd lines (signatureEnd lines first) indent = last := by
  constructor
  · rintro ⟨start, hsignature, hbody⟩
    obtain rfl := hsignature.unique (signatureEndsOn_signatureEnd lines first)
    exact (bodyEndsOn_bodyEnd lines _ indent).unique hbody
  · rintro rfl
    exact ⟨_, signatureEndsOn_signatureEnd lines first, bodyEndsOn_bodyEnd lines _ indent⟩

end IndentBody

namespace Pattern

variable {t : Array Char} {s : CharSet} {i j : Nat}

/-- The characters of a set that a text begins with are a run, and none of them follows. -/
theorem spans_run_takeWhile (cs : List Char) (s : CharSet) :
    Spans cs.toArray (run s) 0 (cs.takeWhile s.contains).length ∧
      charAt cs.toArray s (cs.takeWhile s.contains).length = false := by
  have hrun := spans_run_append [] (cs.takeWhile s.contains) (cs.dropWhile s.contains)
    fun c hc => List.mem_takeWhile_imp hc
  have hnext := charAt_append (s := s) (cs.takeWhile s.contains) (cs.dropWhile s.contains)
  rw [List.nil_append, List.takeWhile_append_dropWhile] at hrun
  rw [List.takeWhile_append_dropWhile] at hnext
  refine ⟨hrun, hnext.trans ?_⟩
  have hhead := List.head?_dropWhile_not s.contains cs
  cases hd : (cs.dropWhile s.contains).head? with
  | none => rfl
  | some d =>
    rw [hd] at hhead
    exact hhead

end Pattern

namespace Header

open Pattern

variable {line : Array Char} {indent indent' i i' j k : Nat} {name : String}

/-- A line reads as the header of an indented function: blanks to indent it, the word for it, the name and an
opening bracket. -/
def Indents (line : Array Char) (indent : Nat) (name : String) : Prop :=
  ∃ i j k, Spans line blanks 0 indent ∧ Spans line (maybe "async" ++ keyword "def") indent i ∧
    Spans line word1 i j ∧ Spans line openCall j k ∧ name = String.ofList (line.extract i j).toList

theorem names_python_iff : python.Names line name ↔ ∃ indent, Indents line indent name := by
  constructor
  · rintro ⟨i, j, k, ⟨_, ⟨_, rfl⟩, indent, hblanks, hdef⟩, hword, htail, rfl⟩
    exact ⟨indent, i, j, k, hblanks, hdef, hword, htail, rfl⟩
  · rintro ⟨indent, i, j, k, hblanks, hdef, hword, htail, rfl⟩
    exact ⟨i, j, k, ⟨0, ⟨rfl, rfl⟩, indent, hblanks, hdef⟩, hword, htail, rfl⟩

/-- The word for a function begins with no blank. -/
theorem not_blank_of_keyword_def (h : Spans line (keyword "def") i j) : charAt line .blank i = false :=
  h.not_charAt rfl fun c hc => by rw [beq_iff_eq.mp hc]; rfl

theorem not_blank_of_def (h : Spans line (maybe "async" ++ keyword "def") i j) :
    charAt line .blank i = false := by
  refine h.not_charAt rfl fun c hc => ?_
  rcases Bool.or_eq_true_iff.mp hc with hc | hc <;> rw [beq_iff_eq.mp hc] <;> rfl

/-- The two words for a function begin with different letters. -/
theorem not_spans_async_of_def (h : Spans line (keyword "def") i j) : ¬Spans line (keyword "async") i k := by
  rintro ⟨_, ⟨_, ⟨hasync, _⟩, _⟩, _⟩
  rw [h.not_charAt rfl fun c hc => by rw [beq_iff_eq.mp hc]; rfl] at hasync
  cases hasync

/-- The words for a function have one end before a character that is no blank. -/
theorem def_end_unique (h : Spans line (maybe "async" ++ keyword "def") i j)
    (h' : Spans line (maybe "async" ++ keyword "def") i k) (hj : charAt line .blank j = false)
    (hk : charAt line .blank k = false) : j = k := by
  obtain ⟨m, hasync, hdef⟩ := h
  obtain ⟨m', hasync', hdef'⟩ := h'
  have hm : m = m' := by
    rcases hasync with hasync | rfl
    · rcases hasync' with hasync' | rfl
      · exact keyword_end_unique hasync hasync' (not_blank_of_keyword_def hdef) (not_blank_of_keyword_def hdef')
      · exact absurd hasync (not_spans_async_of_def hdef')
    · rcases hasync' with hasync' | rfl
      · exact absurd hasync' (not_spans_async_of_def hdef)
      · rfl
  subst hm
  exact keyword_end_unique hdef hdef' hj hk

/-- The indentation of a header is the blanks that its line begins with. -/
theorem Indents.indent_eq {line : List Char} (h : Indents line.toArray indent name) :
    indent = Text.indent line := by
  obtain ⟨i, _, _, hblanks, hdef, _⟩ := h
  obtain ⟨hmargin, hafter⟩ := spans_run_takeWhile line .blank
  exact hblanks.end_unique hmargin (not_blank_of_def hdef) hafter

/-- The name found in a header line is the one that the line reads as. -/
theorem name?_python_iff {line : List Char} :
    python.name? line.toArray = some name ↔ ∃ indent, Indents line.toArray indent name := by
  constructor
  · exact fun hname => names_python_iff.mp (names_of_name? hname)
  · rintro ⟨indent, i, j, k, hblanks, hdef, hword, htail, rfl⟩
    refine name?_eq ⟨0, ⟨rfl, rfl⟩, indent, hblanks, hdef⟩ hword htail ?_ fun m k => not_word_of_openCall
    rintro m ⟨_, ⟨_, rfl⟩, indent', hblanks', hdef'⟩ hm
    obtain rfl := hblanks'.end_unique hblanks (not_blank_of_def hdef') (not_blank_of_def hdef)
    exact def_end_unique hdef' hdef (not_blank_of_word hm) (not_blank_of_word (charAt_of_word1 hword))

end Header

namespace FunctionSpan

variable {text : List Char} {f : FunctionSpan}

theorem mem_ofText_python :
    f ∈ ofText .python text ↔
      ∃ i line, (Text.lines text)[i]? = some line ∧ indentedAt (Text.lines text) line i = some f := by
  rw [ofText, List.mem_filterMap]
  constructor
  · rintro ⟨⟨line, i⟩, hmem, hf⟩
    exact ⟨i, line, List.mem_zipIdx_iff_getElem?.mp hmem, hf⟩
  · rintro ⟨i, line, hline, hf⟩
    exact ⟨(line, i), List.mem_zipIdx_iff_getElem?.mpr hline, hf⟩

/-- **The functions of an indented text.** They come in the order of their first lines, one to a line at most.
They are those whose first line reads as a header, from there to the line on which a header with that
indentation ends; and every header ends on exactly one line. -/
theorem indented_functions (text : List Char) :
    ((ofText .python text).Pairwise fun f g => f.startLine < g.startLine) ∧
      (∀ f, f ∈ ofText .python text ↔ ∃ i line indent name last, (Text.lines text)[i]? = some line ∧
        Header.Indents line.toArray indent name ∧ IndentBody.EndsOn (Text.lines text) i indent last ∧
        f = ⟨name, last + 1 - i, i + 1⟩) ∧
      ∀ i indent, ∃! last, IndentBody.EndsOn (Text.lines text) i indent last := by
  refine ⟨pairwise_startLine_ofText .python text, fun f => ?_, fun i indent => ?_⟩
  · rw [mem_ofText_python]
    constructor
    · rintro ⟨i, line, hline, hf⟩
      obtain ⟨name, hname, rfl⟩ := Option.map_eq_some_iff.mp hf
      obtain ⟨indent, hindents⟩ := Header.name?_python_iff.mp hname
      obtain rfl := hindents.indent_eq
      exact ⟨i, line, _, name, _, hline, hindents, IndentBody.endsOn_iff.mpr rfl, rfl⟩
    · rintro ⟨i, line, indent, name, last, hline, hindents, hends, rfl⟩
      refine ⟨i, line, hline, Option.map_eq_some_iff.mpr ⟨name, ?_, ?_⟩⟩
      · exact Header.name?_python_iff.mpr ⟨indent, hindents⟩
      · obtain rfl := hindents.indent_eq
        rw [IndentBody.endsOn_iff.mp hends]
        rfl
  · exact ⟨_, IndentBody.endsOn_iff.mpr rfl, fun _ hends => (IndentBody.endsOn_iff.mp hends).symm⟩

/-- The blank line inside the first function belongs to it, the one after it does not. -/
example : ofText .python "def f(a,\n    b):\n    g()\n\n    h()\n\nasync def k():\n    x".toList =
    [⟨"f", 5, 1⟩, ⟨"k", 2, 7⟩] := by decide +kernel

end FunctionSpan

end SourceScan
