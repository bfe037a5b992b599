import SourceScan.Proofs.Function.Nesting
import SourceScan.Proofs.Function.OneName

/-!
# Which lines are listed as functions

In a language with bodies in braces a line is tried against one header after the other. A header that reads the
line with a word that is no name is passed over, and the first that reads it with a proper name gives it that
name (`Header.NamesFirst`, `Language.headerName?_eq_some_iff`). So whether a line has a name does not depend on the
order of the headers (`Header.exists_namesFirst_iff`); which name it has does.

A line with a name is listed if a body begins on it or after it. Where none does, no further header is tried, and
none would help: the search for the end of a body is not told which header was read
(`FunctionSpan.mem_ofText_namesFirst_iff`). With the bounds of a span in its text this gives
`FunctionSpan.listed_functions`.
-/

namespace SourceScan

namespace Header

variable {h : Header} {headers : List Header} {line : Array Char} {name : String}

/-- A line reads as the header with a proper name, none of the words that are no names. -/
def NamesProperly (h : Header) (line : Array Char) (name : String) : Prop :=
  h.Names line name ∧ name ∉ notNames

/-- The first of the headers that gives a line a proper name gives it this one. -/
def NamesFirst (headers : List Header) (line : Array Char) (name : String) : Prop :=
  ∃ before h after, headers = before ++ h :: after ∧ h.NamesProperly line name ∧
    ∀ earlier ∈ before, ∀ other, ¬earlier.NamesProperly line other

theorem OneName.filter_name?_eq_some_iff (hone : h.OneName) :
    ((h.name? line).filter fun name => !notNames.contains name) = some name ↔ h.NamesProperly line name := by
  rw [Option.filter_eq_some_iff, hone.name?_eq_some_iff, Bool.not_eq_true', List.contains_eq_mem,
    decide_eq_false_iff_not]
  rfl

/-- A header is passed over if it gives the line no proper name. -/
theorem OneName.filter_name?_eq_none_iff (hone : h.OneName) :
    ((h.name? line).filter fun name => !notNames.contains name) = none ↔ ∀ name, ¬h.NamesProperly line name := by
  rw [Option.eq_none_iff_forall_ne_some]
  exact forall_congr' fun name => not_congr hone.filter_name?_eq_some_iff

/-- A line has a name if any of the headers gives it a proper one. -/
theorem exists_namesFirst_iff :
    (∃ name, NamesFirst headers line name) ↔ ∃ h ∈ headers, ∃ name, h.NamesProperly line name := by
  constructor
  · rintro ⟨name, before, h, after, rfl, hname, _⟩
    exact ⟨h, List.mem_append_right before List.mem_cons_self, name, hname⟩
  · rintro ⟨h, hh, name, hname⟩
    induction headers with
    | nil => cases hh
    | cons first rest ih =>
      by_cases hfirst : ∃ other, first.NamesProperly line other
      · obtain ⟨other, hother⟩ := hfirst
        exact ⟨other, [], first, rest, rfl, hother, nofun⟩
      · -- The first header is passed over, so the name comes from the rest.
        have hpassed := not_exists.mp hfirst
        rcases List.mem_cons.mp hh with rfl | hh
        · exact absurd hname (hpassed name)
        · obtain ⟨found, before, h, after, rfl, hfound, hbefore⟩ := ih hh
          exact ⟨found, first :: before, h, after, rfl, hfound, List.forall_mem_cons.mpr ⟨hpassed, hbefore⟩⟩

end Header

namespace Language

open Header

variable {l : Language} {line : Array Char} {name other : String}

/-- **The name of a line** is the one that the first header with a proper name gives it. -/
theorem headerName?_eq_some_iff :
    headerName? l.braceHeaders line = some name ↔ NamesFirst l.braceHeaders line name := by
  have hone : ∀ h ∈ l.braceHeaders, h.OneName := fun _ hh =>
    l.oneName_of_mem (mem_headers_of_mem_braceHeaders hh)
  rw [headerName?, List.findSome?_eq_some_iff, NamesFirst]
  refine exists_congr fun before => exists_congr fun h => exists_congr fun after => and_congr_right fun hsplit => ?_
  rw [hsplit] at hone
  obtain ⟨hbefore, hafter⟩ := List.forall_mem_append.mp hone
  refine and_congr (hafter h List.mem_cons_self).filter_name?_eq_some_iff ?_
  exact forall₂_congr fun earlier hmem => (hbefore earlier hmem).filter_name?_eq_none_iff

/-- A line has one name. -/
theorem namesFirst_unique (h : NamesFirst l.braceHeaders line name) (h' : NamesFirst l.braceHeaders line other) :
    name = other :=
  Option.some.inj ((headerName?_eq_some_iff.mpr h).symm.trans (headerName?_eq_some_iff.mpr h'))

end Language

namespace FunctionSpan

open BraceBody Header

variable {language : Language} {text line : List Char} {f : FunctionSpan} {i : Nat}

/-- A function begins on a line if the line has a name and a body follows. -/
theorem mem_ofText_namesFirst_iff (hl : language ≠ .python) (hline : (Text.lines text)[i]? = some line) :
    f ∈ ofText language text ∧ f.startLine = i + 1 ↔
      ∃ name last, NamesFirst language.braceHeaders line.toArray name ∧
        endLine? (Text.lines text) i = some last ∧ f = ofIndices name i last := by
  rw [mem_ofText_startLine_iff hl hline]
  simp only [Language.headerName?_eq_some_iff]

theorem lastLine_ofIndices {first last : Nat} (name : String) (hle : first ≤ last) :
    (ofIndices name first last).lastLine = last + 1 := by
  simp only [ofIndices, lastLine]
  omega

/-- **The functions that are listed.** They come in the order of their first lines, one to a line at most, and a
function spans one line at least and no line that the text does not have. Where bodies stand in braces, no function
is called by a word that is no name, and one begins on a line if and only if some header gives the line a proper
name and a body follows. Its name is the one that the first such header gives, and it ends where the body does. -/
theorem listed_functions (language : Language) (text : List Char) :
    ((ofText language text).Pairwise fun f g => f.startLine < g.startLine) ∧
      (∀ f ∈ ofText language text, 1 ≤ f.lines ∧ 1 ≤ f.startLine ∧
        f.startLine + f.lines - 1 ≤ text.count '\n' + 1) ∧
      (language ≠ .python →
        (∀ f ∈ ofText language text, f.name ∉ notNames) ∧
        ∀ i line, (Text.lines text)[i]? = some line →
          ((∃ f ∈ ofText language text, f.startLine = i + 1) ↔
            (∃ h ∈ language.braceHeaders, ∃ name, h.NamesProperly line.toArray name) ∧
              endLine? (Text.lines text) i ≠ none) ∧
          ∀ f ∈ ofText language text, f.startLine = i + 1 →
            (∀ name, NamesFirst language.braceHeaders line.toArray name ↔ name = f.name) ∧
              endLine? (Text.lines text) i = some (f.lastLine - 1)) := by
  refine ⟨pairwise_startLine_ofText language text, fun f hf => ?_, fun hl => ⟨fun f hf => ?_, fun i line hline => ?_⟩⟩
  · obtain ⟨hstart, hlines, hend, _⟩ := mem_ofText_bounds hf
    rw [Text.length_lines] at hend
    exact ⟨hlines, hstart, hend⟩
  · obtain ⟨_, _, _, _, _, _, _, _, hnot⟩ := mem_ofText_bounds hf
    exact hnot hl
  · refine ⟨?_, fun f hf hstart => ?_⟩
    · constructor
      · rintro ⟨f, hf, hstart⟩
        obtain ⟨name, last, hname, hlast, _⟩ := (mem_ofText_namesFirst_iff hl hline).mp ⟨hf, hstart⟩
        exact ⟨exists_namesFirst_iff.mp ⟨name, hname⟩, Option.ne_none_iff_exists'.mpr ⟨last, hlast⟩⟩
      · rintro ⟨hnamed, hbody⟩
        obtain ⟨name, hname⟩ := exists_namesFirst_iff.mpr hnamed
        obtain ⟨last, hlast⟩ := Option.ne_none_iff_exists'.mp hbody
        exact ⟨_, (mem_ofText_namesFirst_iff hl hline).mpr ⟨name, last, hname, hlast, rfl⟩⟩
    · obtain ⟨name, last, hname, hlast, rfl⟩ := (mem_ofText_namesFirst_iff hl hline).mp ⟨hf, hstart⟩
      refine ⟨fun other => ⟨fun hother => Language.namesFirst_unique hother hname, ?_⟩, ?_⟩
      · rintro rfl
        exact hname
      · rw [lastLine_ofIndices name (endLine?_bounds hlast).1, Nat.add_sub_cancel]
        exact hlast

/-- A line that one header reads with a word that is no name and another one with a name, a line that no header
reads with a name, and a line that has a name and no body. -/
def readTwice : List Char := "func in<T> f(x) \x7b\n  else if (x) \x7b\x7d\n\x7d\nfunc g();".toList

/-- Only the first line is listed, with the name that the second header gives it: the second line has a body and no
name, and the last one a name and no body. -/
theorem listed_functions_readTwice :
    ofText .cFamily readTwice = [⟨"f", 3, 1⟩] ∧
      NamesFirst cFamily "func in<T> f(x) \x7b".toList.toArray "f" ∧
      (endLine? (Text.lines readTwice) 1 = some 1 ∧
        ¬∃ h ∈ cFamily, ∃ name, h.NamesProperly "  else if (x) \x7b\x7d".toList.toArray name) ∧
      cFamily[0].NamesProperly "func g();".toList.toArray "g" ∧ endLine? (Text.lines readTwice) 3 = none := by
  have hspans : ofText .cFamily readTwice = [⟨"f", 3, 1⟩] := by decide +kernel
  have hbody : endLine? (Text.lines readTwice) 1 = some 1 := by decide +kernel
  have hfirst : (Text.lines readTwice)[0]? = some "func in<T> f(x) \x7b".toList := by decide +kernel
  have hsecond : (Text.lines readTwice)[1]? = some "  else if (x) \x7b\x7d".toList := by decide +kernel
  have hlast : (Text.lines readTwice)[3]? = some "func g();".toList := by decide +kernel
  have hnamed : cFamily[0].NamesProperly "func g();".toList.toArray "g" :=
    ⟨names_of_name? (by decide +kernel), by decide⟩
  obtain ⟨_, _, hbraced⟩ := listed_functions .cFamily readTwice
  obtain ⟨_, hlisted⟩ := hbraced (by decide)
  rw [hspans] at hlisted
  have honly : ∀ i, (∃ f ∈ [(⟨"f", 3, 1⟩ : FunctionSpan)], f.startLine = i + 1) → i = 0 := by
    rintro i ⟨f, hf, hstart⟩
    rw [List.mem_singleton.mp hf] at hstart
    exact (Nat.succ.inj hstart).symm
  refine ⟨hspans, ?_, ⟨hbody, fun hname => ?_⟩, hnamed, ?_⟩
  · obtain ⟨hnames, _⟩ := (hlisted 0 _ hfirst).2 ⟨"f", 3, 1⟩ (List.mem_singleton_self _) rfl
    exact (hnames "f").mpr rfl
  · have hzero := honly 1 ((hlisted 1 _ hsecond).1.mpr ⟨hname, by rw [hbody]; nofun⟩)
    cases hzero
  · apply Classical.byContradiction
    intro hends
    have hzero := honly 3 ((hlisted 3 _ hlast).1.mpr ⟨⟨cFamily[0], List.mem_cons_self, "g", hnamed⟩, hends⟩)
    cases hzero

end FunctionSpan

end SourceScan
