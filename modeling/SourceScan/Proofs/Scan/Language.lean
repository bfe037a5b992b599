import SourceScan.Proofs.Scan.ByRule
import SourceScan.Proofs.Tree.Extension

/-!
# The language of a file of a scan

Three places of a scan look at the extension of a file: the walk at the suffix of the file's name, the rules for lines
at the suffix of its path, and the check of the functions at the extension of the path in lower case. The first
two agree on every file (`FileName.suffix_text`). The third agrees with them on every file but those whose names have
only dots before the suffix (`Language.ofFile?_text`): such a file is walked and scanned as one of its language, and
none of its functions is looked at (`languages_of_walk`).
-/

namespace SourceScan

namespace FileName

/-- The name is its suffix with only dots before it. -/
def OnlyDotsBefore (name : CodeString) : Prop := ∃ n, name = List.replicate n dot ++ suffix name

theorem onlyDotsBefore_iff {before tail : CodeString} (h : suffix (before ++ dot :: tail) = dot :: tail) :
    OnlyDotsBefore (before ++ dot :: tail) ↔ ∀ p ∈ before, p = dot := by
  simp only [OnlyDotsBefore, h, List.append_cancel_right_eq]
  constructor
  · intro ⟨n, hn⟩ p hp
    rw [hn] at hp
    exact List.eq_of_mem_replicate hp
  · intro hall
    exact ⟨before.length, List.eq_replicate_of_mem hall⟩

end FileName

namespace Language

open CodeString (Lowers)
open FileName (dot slash suffix extension isProper OnlyDotsBefore)

variable {file name low s t t' : CodeString} {lang : Language}

/-- The string is one of the extensions of the language. -/
def HasExtension (lang : Language) (s : CodeString) : Prop :=
  ∃ ext, (ext, lang) ∈ byExtension ∧ s = CodeString.ofString ext

/-- A file is of a language if its extension in lower case is one of the language's. -/
theorem ofFile?_eq_some : ofFile? file = some lang ↔ lang.HasExtension (extension file.lower) := by
  have hlookup : ∀ e ∈ byExtension, byExtension.lookup e.1 = some e.2 := by decide
  constructor
  · intro h
    obtain ⟨ext, htext, hlang⟩ := Option.bind_eq_some_iff.mp h
    obtain ⟨before, after, hmem, _⟩ := List.lookup_eq_some_iff.mp hlang
    exact ⟨ext, hmem ▸ List.mem_append_right before List.mem_cons_self, CodeString.toString?_eq_some.mp htext⟩
  · intro ⟨ext, hmem, hext⟩
    exact Option.bind_eq_some_iff.mpr ⟨ext, CodeString.toString?_eq_some.mpr hext, hlookup _ hmem⟩

theorem not_hasExtension_nil : ¬ lang.HasExtension [] := by
  have hall : ∀ e ∈ byExtension, CodeString.ofString e.1 ≠ [] := by decide
  exact fun ⟨_, hmem, heq⟩ => hall _ hmem heq.symm

theorem not_hasExtension_dot : ¬ lang.HasExtension [dot] := by
  have hall : ∀ e ∈ byExtension, CodeString.ofString e.1 ≠ [dot] := by decide
  exact fun ⟨_, hmem, heq⟩ => hall _ hmem heq.symm

/-- No extension has a small sigma in it, so none is that of a string with a capital one. -/
theorem HasExtension.sigma_not_mem (h : lang.HasExtension t) (ht : Lowers s t) : CodePoint.scalar '\u03A3' ∉ s := by
  have hall : ∀ e ∈ byExtension, CodePoint.scalar '\u03C2' ∉ CodeString.ofString e.1 ∧
      CodePoint.scalar '\u03C3' ∉ CodeString.ofString e.1 := by decide
  obtain ⟨ext, hmem, rfl⟩ := h
  exact fun hsigma => (ht.sigma_mem hsigma).elim (hall _ hmem).1 (hall _ hmem).2

/-- Of the lower-case forms of a string all are an extension of the language or none is. -/
theorem hasExtension_congr (ht : Lowers s t) (ht' : Lowers s t') : lang.HasExtension t ↔ lang.HasExtension t' :=
  ⟨fun h => ht.unique ht' (h.sigma_not_mem ht) ▸ h, fun h => ht'.unique ht (h.sigma_not_mem ht') ▸ h⟩

/-- The extension of a name in lower case is one of the language's exactly if its suffix in lower case is and has not
only dots before it. -/
theorem hasExtension_extension_iff (hproper : isProper name = true) (hlow : Lowers name low) :
    lang.HasExtension (extension low) ↔ lang.HasExtension (suffix name).lower ∧ ¬ OnlyDotsBefore name := by
  have hnil : CodeString.lower [] = [] := (CodeString.lowers_lower []).eq_nil_iff.mpr rfl
  have hslash : slash ∉ low := fun hmem => FileName.slash_not_mem hproper ((hlow.mark_mem_iff (Or.inr rfl)).mp hmem)
  by_cases hdot : dot ∈ name
  · obtain ⟨before, tail, rfl, htail⟩ := FileName.exists_last hdot
    obtain ⟨above, rest, rfl, habove, hrest⟩ := hlow.of_append
    obtain ⟨low, rfl, hlowtail⟩ : ∃ t, rest = dot :: t ∧ Lowers tail t := hrest.of_mark_cons (Or.inl rfl)
    have hdots : (∀ p ∈ above, p = dot) ↔ ∀ p ∈ before, p = dot := habove.forall_eq_mark_iff (Or.inl rfl)
    rw [FileName.extension_append hslash fun hmem => htail ((hlowtail.mark_mem_iff (Or.inl rfl)).mp hmem)]
    by_cases hends : before = [] ∨ tail = []
    · -- A dot at an end of the name begins no suffix, and what it begins is no extension of a language.
      rw [FileName.suffix_append hproper htail, if_pos hends, hnil]
      refine iff_of_false ?_ fun hknown => not_hasExtension_nil hknown.1
      split
      · exact not_hasExtension_nil
      · next hall =>
        have hbefore : before ≠ [] := fun hb => hall (hdots.mpr (hb ▸ fun p hp => absurd hp List.not_mem_nil))
        rw [hlowtail.eq_nil_iff.mpr (hends.resolve_left hbefore)]
        exact not_hasExtension_dot
    · have hsuffix : suffix (before ++ dot :: tail) = dot :: tail := by
        rw [FileName.suffix_append hproper htail, if_neg hends]
      rw [FileName.onlyDotsBefore_iff hsuffix, hsuffix, ← hasExtension_congr hrest (CodeString.lowers_lower _)]
      by_cases hall : ∀ p ∈ before, p = dot
      · rw [if_pos (hdots.mpr hall)]
        exact iff_of_false not_hasExtension_nil fun hknown => hknown.2 hall
      · rw [if_neg (mt hdots.mp hall)]
        exact (and_iff_left hall).symm
  · have hlowdot : dot ∉ low := fun hmem => hdot ((hlow.mark_mem_iff (Or.inl rfl)).mp hmem)
    rw [FileName.extension_of_not_mem hslash hlowdot, FileName.suffix_of_not_mem hproper hdot, hnil]
    exact iff_of_false not_hasExtension_nil fun hknown => not_hasExtension_nil hknown.1

/-- The path of a file is of a language exactly if the suffix of its last name, in whatever case, is one of the
language's and has not only dots before it. -/
theorem ofFile?_text {dirs : RelativePath} (h : ∀ x ∈ dirs ++ [name], isProper x = true) :
    ofFile? (RelativePath.text (dirs ++ [name])) = some lang ↔
      lang.HasExtension (suffix name).lower ∧ ¬ OnlyDotsBefore name := by
  have hproper := h name (List.mem_append_right _ (List.mem_singleton_self _))
  obtain ⟨low, hlow, hext⟩ := FileName.exists_extension_text (FileName.slash_not_mem hproper) dirs
  rw [ofFile?_eq_some, hext, hasExtension_extension_iff hproper hlow]

end Language

/-- The functions of a text in a language that span more lines than the threshold, as findings. -/
def FileCheck.longFunctions (config : Config) (file : CodeString) (lang : Language) (text : List Char) : List Issue :=
  ((FunctionSpan.ofText lang text).filter fun f => config.functionLengthMedium < f.lines).map
    (longFunction config file)

namespace Scan

open FileName (suffix OnlyDotsBefore)

/-- **The language of a file of the walk.** Whatever the tree and the path that the walk yields, the walk and the
rules for lines go by the same suffix. If it is one of a language, in whatever case, and the name has not only dots
before it, then that is the language of the path, and the findings on long functions are those of its functions. If
the name has only dots before it, the path has no language and there is no finding on its functions. -/
theorem languages_of_walk {top : Node} (hp : top.Proper) (config : Config) (root : Door) {path : RelativePath}
    (h : path ∈ (walk .performance config).files top root) :
    ∃ dirs name, path = dirs ++ [name] ∧ suffix path.text = suffix name ∧
      (suffix name).lower ∈ Analyzer.performance.extensions ∧
      (∀ lang, Language.ofFile? path.text = some lang → lang.HasExtension (suffix name).lower) ∧
      (∀ lang, lang.HasExtension (suffix name).lower → ¬ OnlyDotsBefore name →
        Language.ofFile? path.text = some lang ∧
          ∀ b, ∃ found, pathIssues .performance config path.text (some b) = .ok found ∧
            (found.filter fun i => i.rule == CodeString.ofString "function_length") =
              FileCheck.longFunctions config path.text lang (Text.ofBytes b.bytes)) ∧
      (OnlyDotsBefore name → Language.ofFile? path.text = none ∧
        ∀ b, ∃ found, pathIssues .performance config path.text (some b) = .ok found ∧
          ∀ i ∈ found, i.rule ≠ CodeString.ofString "function_length") := by
  obtain ⟨start, dirs, name, _, rfl, hfinds⟩ := (Walk.mem_files hp).mp h
  have hnames := (Walk.names_of_mem_files hp h).2
  have hlanguage : ∀ lang, Language.ofFile? (RelativePath.text (dirs ++ [name])) = some lang ↔
      lang.HasExtension (suffix name).lower ∧ ¬ OnlyDotsBefore name := fun _ => Language.ofFile?_text hnames
  refine ⟨dirs, name, rfl, FileName.suffix_text hnames, (Walk.finds_root.mp hfinds).2.1, ?_, ?_, ?_⟩
  · intro lang hlang
    exact ((hlanguage lang).mp hlang).1
  · intro lang hext hdots
    have hlang := (hlanguage lang).mpr ⟨hext, hdots⟩
    refine ⟨hlang, fun b => ⟨_, pathIssues_eq_ok .performance config _ (some b), ?_⟩⟩
    rw [filter_function_length, FileCheck.functionLength, hlang]
    rfl
  · intro hdots
    have hnone : Language.ofFile? (RelativePath.text (dirs ++ [name])) = none :=
      Option.eq_none_iff_forall_ne_some.mpr fun lang hlang => ((hlanguage lang).mp hlang).2 hdots
    refine ⟨hnone, fun b => ⟨_, pathIssues_eq_ok .performance config _ (some b), fun i hi hrule => ?_⟩⟩
    have hlong := filter_function_length config (RelativePath.text (dirs ++ [name])) b
    rw [FileCheck.functionLength, hnone] at hlong
    exact List.filter_eq_nil_iff.mp hlong i hi (beq_iff_eq.mpr hrule)

/-- The bytes of a Python function of three lines. -/
def threeLines : FileBytes := ⟨Text.asciiBytes "def f():\n  x\n  y".toList, by decide⟩

/-- A file whose name has only dots before its suffix, and one in a directory with a dot in its name. -/
def dotted : Node :=
  .dir true [("..py", .file (.open threeLines)), ("x.d", .dir true [("a.PY", .file (.open threeLines))])]

theorem dotted_proper : dotted.Proper := by
  refine .dir (by decide) (by decide) fun e he => ?_
  simp only [List.mem_cons, List.not_mem_nil, or_false] at he
  rcases he with rfl | rfl
  · exact .file _
  · exact .single (by decide) (.file _)

theorem files_dotted : (walk .performance {}).files dotted .top =
    [[("..py" : CodeString)], [("x.d" : CodeString), "a.PY"]] := by
  have hdots : (walk .performance {}).wants "..py" = true := by decide +kernel
  have hcapitals : (walk .performance {}).wants "a.PY" = true := by decide +kernel
  have henters : (walk .performance {}).enters "x.d" ["x.d"] 0 = true := by decide +kernel
  rw [Walk.files_eq_filesBelow _ _ _ rfl, dotted, Walk.filesBelow_of_sorted (by decide)]
  simp only [Walk.filesAmong_cons, Walk.dirsAmong_cons, List.nil_append, hdots, henters]
  show [[("..py" : CodeString)]] ++ (Walk.filesBelow _ _ _ ⟨["x.d"], 1, .dir true [("a.PY", _)]⟩ ++ []) = _
  rw [Walk.filesBelow_singleFile, if_pos hcapitals]
  rfl

/-- Capitals in the suffix and a dot in the directory leave a Python file one. -/
theorem languages_of_walk_capitals :
    dotted.Proper ∧ [("x.d" : CodeString), "a.PY"] ∈ (walk .performance {}).files dotted .top ∧
      Language.ofFile? (RelativePath.text ["x.d", "a.PY"]) = some .python := by
  have hmem : [("x.d" : CodeString), "a.PY"] ∈ (walk .performance {}).files dotted .top := by
    rw [files_dotted]
    exact .tail _ (.head _)
  refine ⟨dotted_proper, hmem, ?_⟩
  obtain ⟨dirs, name, hpath, _, _, _, hlanguage, _⟩ := languages_of_walk dotted_proper {} .top hmem
  obtain ⟨rfl, hname⟩ := List.append_inj' (show [_] ++ [_] = dirs ++ [name] from hpath) rfl
  obtain rfl := List.singleton_inj.mp hname
  have hsuffix : suffix ([.scalar 'a'] ++ FileName.dot :: CodeString.ofString "PY") = CodeString.ofString ".PY" := by
    decide
  refine (hlanguage .python ⟨".py", by decide, by decide⟩ ?_).1
  exact fun hdots => absurd ((FileName.onlyDotsBefore_iff hsuffix).mp hdots (.scalar 'a') (.head _)) (by decide)

/-- The walk yields a file with the suffix of Python that has no language, and whose function of three lines is not
found, however short a function may be. -/
theorem languages_of_walk_onlyDots :
    dotted.Proper ∧ [("..py" : CodeString)] ∈ (walk .performance {}).files dotted .top ∧
      Language.python.HasExtension (suffix "..py").lower ∧
      Language.ofFile? (RelativePath.text ["..py"]) = none ∧
      (FunctionSpan.ofText .python (Text.ofBytes threeLines.bytes)).map FunctionSpan.lines = [3] ∧
      FileCheck.functionLength { functionLengthMedium := 1 } "..py" (Text.ofBytes threeLines.bytes) = [] := by
  refine ⟨dotted_proper, ?_, ⟨".py", by decide, by decide⟩, by decide, ?_, by decide⟩
  · rw [files_dotted]
    exact .head _
  · rw [threeLines, Text.ofBytes_asciiBytes (by decide)]
    decide +kernel

end Scan

end SourceScan
