import SourceScan.Proofs.Scan.Project
import SourceScan.Proofs.Walk.Recursion

/-!
# Where the findings of a scan are

Every issue of a scan is anchored in the tree (`anchored_of_mem_scan`). One with a line is on a line of a
file that the walk yielded and could read, and the line shows what the issue says: a rule's pattern is
found in it, or a function begins there (`onLine_of_mem_scanLines`, `onLine_of_mem_functionLength`). One
without a line is about a whole file of the walk or about one of the project's own files, known by name.

The lines are those of the text as it was read, with its line ends unified.
-/

namespace SourceScan

namespace Scan

variable {a : Analyzer} {config : Config} {top : Node} {root : Door} {file : CodeString}
  {text : List Char} {i : Issue} {l : Nat}

/-! ## Anchors -/

/-- An issue is a rule's, which is for the file and is found in the line. -/
def FromRule (a : Analyzer) (file : CodeString) (l : Nat) (line : List Char) (i : Issue) : Prop :=
  ∃ r ∈ a.catalog.rules, i = r.issue file l ∧ r.appliesTo (FileName.suffix file).lower = true ∧
    Pattern.OccursIn line.toArray r.pattern ∧ ¬(r.skipComments = true ∧ isCommentedOut line = true)

/-- An issue is about a long function whose header is the line and whose lines are lines of the text. -/
def FromFunction (a : Analyzer) (config : Config) (file : CodeString) (text : List Char) (l : Nat)
    (line : List Char) (i : Issue) : Prop :=
  a.checksFiles = true ∧ i.rule = "function_length" ∧
    ∃ language f, Language.ofFile? file = some language ∧ f ∈ FunctionSpan.ofText language text ∧
      i = FileCheck.longFunction config file f ∧ f.startLine = l ∧ language.IsHeader line f.name ∧
      l + f.lines - 1 ≤ text.count '\n' + 1

/-- An issue is on a line of a text. -/
def OnLine (a : Analyzer) (config : Config) (file : CodeString) (text : List Char) (l : Nat)
    (i : Issue) : Prop :=
  1 ≤ l ∧ l ≤ text.count '\n' + 1 ∧ ∃ line, (Text.lines text)[l - 1]? = some line ∧
    (FromRule a file l line i ∨ FromFunction a config file text l line i)

/-- The names of the project's own files that a check looks at. -/
def projectFiles : List String := [Manifest.fileName, Requirements.fileName] ++ BuildConfig.fileNames

/-- What the place of an issue promises: a line is one of a file that the walk yielded and could read,
and without a line there is such a file all the same, or the issue is about one of the project's own. -/
def Anchored (a : Analyzer) (config : Config) (top : Node) (root : Door) (i : Issue) : Prop :=
  match i.line with
  | some l => ∃ p ∈ (walk a config).files top root, ∃ b, walkedBytes? top root p = some b ∧
      i.file = p.text ∧ OnLine a config p.text (Text.ofBytes b.bytes) l i
  | none => (∃ p ∈ (walk a config).files top root, (∃ b, walkedBytes? top root p = some b) ∧
        i.file = p.text) ∨
      ∃ name ∈ projectFiles, i.file = CodeString.ofString name

/-! ## Findings with a line -/

/-- The line bound of the rules is that of the lines of the text. -/
theorem onLine_of_mem_scanLines {bytes : ByteArray}
    (h : i ∈ scanLines a.catalog file (Text.ofBytes bytes)) :
    ∃ l, i.line = some l ∧ i.file = file ∧ OnLine a config file (Text.ofBytes bytes) l i := by
  obtain ⟨r, hr, k, line, hline, happlies, hskip, hmatches, rfl⟩ := mem_scanLines.mp h
  have hk := (List.getElem?_eq_some_iff.mp hline).1
  rw [Text.length_lines] at hk
  rw [Text.dropReturn_of_mem_lines (List.mem_of_getElem? hline)] at hskip hmatches
  refine ⟨k + 1, rfl, rfl, Nat.succ_pos k, hk, line, hline, Or.inl ?_⟩
  exact ⟨r, hr, rfl, happlies, (Pattern.found_iff _ _).mp hmatches, hskip⟩

/-- The line bound of the functions is that of the search for their end. -/
theorem onLine_of_mem_functionLength (hwhole : a.checksFiles = true)
    (h : i ∈ FileCheck.functionLength config file text) :
    ∃ l, i.line = some l ∧ i.file = file ∧ OnLine a config file text l i := by
  obtain ⟨language, f, hlanguage, hf, _, rfl⟩ := FileCheck.mem_functionLength.mp h
  obtain ⟨hstart, hlines, hend, line, hline, hheader⟩ := FunctionSpan.mem_ofText_bounds hf
  rw [Text.length_lines] at hend
  refine ⟨f.startLine, rfl, rfl, hstart, by omega, line, hline, Or.inr ⟨hwhole, rfl, ?_⟩⟩
  exact ⟨language, f, hlanguage, hf, rfl, rfl, hheader, hend⟩

/-- What is found in a file is on one of its lines or about the whole of it. -/
theorem place_of_mem_findings {b : FileBytes} (h : i ∈ findings a config file (some b)) :
    i.file = file ∧ (i.line = none ∨
      ∃ l, i.line = some l ∧ OnLine a config file (Text.ofBytes b.bytes) l i) := by
  have ofLines : i ∈ scanLines a.catalog file (Text.ofBytes b.bytes) → i.file = file ∧
      (i.line = none ∨ ∃ l, i.line = some l ∧ OnLine a config file (Text.ofBytes b.bytes) l i) := by
    intro h
    obtain ⟨l, hl, hfile, honline⟩ := onLine_of_mem_scanLines h
    exact ⟨hfile, Or.inr ⟨l, hl, honline⟩⟩
  simp only [findings] at h
  split at h
  · next hwhole =>
    obtain ⟨size, hsize, hkept⟩ := FileCheck.exists_fileSize config file b.size_lt
    rw [hsize] at h
    simp only [List.mem_append] at h
    rcases h with ((hrule | hscore) | hlong) | hlarge
    · exact ofLines hrule
    · obtain ⟨hfile, hline, _⟩ := FileCheck.of_mem_complexity hscore
      exact ⟨hfile, Or.inl hline⟩
    · obtain ⟨l, hl, hfile, honline⟩ := onLine_of_mem_functionLength hwhole hlong
      exact ⟨hfile, Or.inr ⟨l, hl, honline⟩⟩
    · obtain ⟨hfile, hline, _⟩ := hkept i hlarge
      exact ⟨hfile, Or.inl hline⟩
  · exact ofLines h

theorem file_of_mem_findings {bytes : Option FileBytes} (h : i ∈ findings a config file bytes) :
    i.file = file := by
  cases bytes with
  | none => cases h
  | some b => exact (place_of_mem_findings h).1

end Scan

/-! ## Findings on the project's own files -/

namespace Manifest

variable {text : Option CodeString} {found : List Issue} {i : Issue}

/-- The issues of the dependencies are about the manifest as a whole. -/
theorem place_of_mem_checkDependencies {config : Config} (h : checkDependencies config text = .ok found)
    (hi : i ∈ found) : i.line = none ∧ i.file = CodeString.ofString fileName := by
  obtain ⟨name, rfl⟩ | ⟨n, rfl⟩ := exists_of_mem_checkDependencies h hi
  · exact ⟨rfl, rfl⟩
  · exact ⟨rfl, rfl⟩

end Manifest

/-- The issues of the build configurations are about one of them as a whole. -/
theorem BuildConfig.place_of_mem_issuesIn {read : String → Option (List Char)} {i : Issue}
    (h : i ∈ issuesIn read) :
    i.line = none ∧ ∃ name ∈ fileNames, i.file = CodeString.ofString name := by
  obtain ⟨name, hname, rfl | rfl⟩ := exists_of_mem_issuesIn h
  · exact ⟨rfl, name, hname, rfl⟩
  · exact ⟨rfl, name, hname, rfl⟩

/-- The issues of the required packages are about their list as a whole. -/
theorem Requirements.place_of_mem_issuesIn {text : Option (List Char)} {i : Issue}
    (h : i ∈ issuesIn text) : i.line = none ∧ i.file = CodeString.ofString fileName := by
  obtain ⟨n, rfl⟩ | ⟨name, rfl⟩ := exists_of_mem_issuesIn h
  · exact ⟨rfl, rfl⟩
  · exact ⟨rfl, rfl⟩

namespace Scan

variable {a : Analyzer} {config : Config} {time : RunTime} {top : Node} {root : Door} {i : Issue}

/-- What is found in the project's own files is about one of them as a whole. -/
theorem place_of_mem_projectFindings (h : i ∈ projectFindings a config top root) :
    i.line = none ∧ ∃ name ∈ projectFiles, i.file = CodeString.ofString name := by
  cases a with
  | security =>
    obtain ⟨name, rfl⟩ := exists_of_mem_security h
    exact ⟨rfl, Manifest.fileName, by decide, rfl⟩
  | performance =>
    rcases mem_of_mem_performance h with ⟨found, hfound, hi⟩ | hi
    · obtain ⟨hline, hfile⟩ := Manifest.place_of_mem_checkDependencies hfound hi
      exact ⟨hline, _, by decide, hfile⟩
    · rcases List.mem_append.mp hi with hi | hi
      · obtain ⟨hline, name, hname, hfile⟩ := BuildConfig.place_of_mem_issuesIn hi
        exact ⟨hline, name, List.mem_append_right _ hname, hfile⟩
      · obtain ⟨hline, hfile⟩ := Requirements.place_of_mem_issuesIn hi
        exact ⟨hline, _, by decide, hfile⟩

/-! ## All findings -/

/-- The issues of a scan come from a file that the walk yielded and could read, or from the project's
own. -/
theorem mem_scan_issues : i ∈ (scan a config time top root).issues ↔
    (∃ p ∈ (walk a config).files top root, ∃ b, walkedBytes? top root p = some b ∧
      i ∈ findings a config p.text (some b)) ∨ i ∈ projectFindings a config top root := by
  rw [issues_scan, List.mem_append, List.mem_flatMap]
  refine or_congr_left (exists_congr fun p => and_congr_right fun _ => ?_)
  cases hbytes : walkedBytes? top root p with
  | none =>
    constructor
    · intro hi
      cases hi
    · intro h
      obtain ⟨b, hb, _⟩ := h
      cases hb
  | some b => simp only [Option.some.injEq, exists_eq_left']

/-- **Every issue of a scan is anchored in the tree.** With a line it is on a line of a file that the walk
yielded and could read, and the line is one that a rule for the file is found in and does not pass over,
or the header of a function that ends within the file; without a line it is about a yielded file or about
one of the project's own. -/
theorem anchored_of_mem_scan (h : i ∈ (scan a config time top root).issues) :
    Anchored a config top root i := by
  rw [Anchored]
  rcases mem_scan_issues.mp h with ⟨p, hp, b, hb, hi⟩ | hi
  · obtain ⟨hfile, hline | ⟨l, hline, honline⟩⟩ := place_of_mem_findings hi
    · rw [hline]
      exact Or.inl ⟨p, hp, ⟨b, hb⟩, hfile⟩
    · rw [hline]
      exact ⟨p, hp, b, hb, hfile, honline⟩
  · obtain ⟨hline, hfile⟩ := place_of_mem_projectFindings hi
    rw [hline]
    exact Or.inr hfile

/-- A file of one line, which calls `eval`. -/
def sample : Node :=
  .dir true [("x.js", .file (.open ⟨"eval(x)".toUTF8, by decide +kernel⟩))]

theorem lines_sample : Text.lines (Text.ofBytes "eval(x)".toUTF8) = ["eval(x)".toList] := by
  decide +kernel

theorem files_sample : (walk .security {}).files sample .top = [[("x.js" : CodeString)]] :=
  Walk.files_singleFile (by decide +kernel)

theorem walkedBytes?_sample :
    walkedBytes? sample .top ["x.js"] = some ⟨"eval(x)".toUTF8, by decide +kernel⟩ :=
  walkedBytes?_file (by decide) rfl

/-- A rule for the file is found in its line, in a comment or not. -/
theorem exists_rule_sample : ∃ r ∈ Analyzer.security.catalog.rules,
    r.appliesTo (FileName.suffix "x.js").lower = true ∧ r.skipComments = false ∧
      r.matchesLine "eval(x)".toList.toArray = true := by
  have hany : (Analyzer.security.catalog.rules.any fun r =>
      r.appliesTo (FileName.suffix "x.js").lower && (!r.skipComments &&
        r.matchesLine "eval(x)".toList.toArray)) = true := by
    decide +kernel
  obtain ⟨r, hr, h⟩ := List.any_eq_true.mp hany
  simp only [Bool.and_eq_true, Bool.not_eq_true'] at h
  exact ⟨r, hr, h⟩

/-- The call in the sample is found on its line. -/
theorem anchored_of_mem_scan_sample :
    ∃ i ∈ (scan .security {} ⟨"", 0⟩ sample .top).issues,
      i.line = some 1 ∧ Anchored .security {} sample .top i := by
  obtain ⟨r, hr, happlies, hskip, hmatches⟩ := exists_rule_sample
  have hi : r.issue "x.js" 1 ∈ (scan .security {} ⟨"", 0⟩ sample .top).issues := by
    refine mem_scan_issues.mpr (Or.inl ⟨["x.js"], ?_, _, walkedBytes?_sample, ?_⟩)
    · rw [files_sample]
      exact List.mem_singleton_self _
    · refine mem_scanLines.mpr ⟨r, hr, 0, "eval(x)".toList, ?_, happlies, ?_, hmatches, rfl⟩
      · rw [lines_sample]
        rfl
      · intro h
        rw [hskip] at h
        exact Bool.false_ne_true h.1
  exact ⟨_, hi, rfl, anchored_of_mem_scan hi⟩

end Scan

end SourceScan
