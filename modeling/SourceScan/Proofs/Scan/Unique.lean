import Mathlib.Data.List.Nodup
import SourceScan.Proofs.Issue.Key
import SourceScan.Proofs.Scan.Anchored
import SourceScan.Proofs.Walk.Files

/-!
# No finding twice

The issues of a scan are told apart by their file, line, rule and message (`nodup_of_scan`). Within a file
the rules of a catalog have names of their own, a line is the first of one function at most, and the other
checks have one finding each. Files are told apart by their paths. The checks of the project's own files
may be about a file that the walk yields as well, but their rules are none of the walk's; among them the
names in an object are different, and so are the messages about them.
-/

namespace SourceScan

/-! ## Names of rules -/

/-- The rules of the checks of whole files. -/
def FileCheck.ruleNames : List String := ["aggregate_complexity", "function_length", "large_file"]

/-- The rules of the checks of the project's own files. -/
def projectRuleNames : List String :=
  ["heavy_dependency", "dependency_count", "piped_download_script", "webpack_optimization",
    "production_source_maps", "python_dependency_count", "heavy_python_package"]

/-- Every rule has a name of its own, whether it is for lines, for whole files or for the project. -/
theorem nodup_ruleNames (a : Analyzer) :
    (a.catalog.rules.map Rule.name ++ FileCheck.ruleNames ++ projectRuleNames).Nodup := by
  cases a <;> decide +kernel

/-! ## Findings in a file -/

namespace Scan

variable {a : Analyzer} {config : Config} {time : RunTime} {top : Node} {root : Door}
  {file : CodeString} {text : List Char} {i : Issue}

theorem nodup_key_issues {rules : List Rule} (h : (rules.map Rule.name).Nodup) (file : CodeString)
    (n : Nat) : ((rules.map fun r => r.issue file n).map Issue.key).Nodup := by
  apply List.Nodup.of_map (·.2.2.1)
  rw [List.map_map, List.map_map]
  have hcodes := h.map fun _ _ => CodeString.ofString_injective
  rw [List.map_map] at hcodes
  exact hcodes

theorem nodup_key_lineIssues {rules : List Rule} (h : (rules.map Rule.name).Nodup) (file : CodeString)
    (n : Nat) (line : List Char) : ((lineIssues rules file n line).map Issue.key).Nodup :=
  nodup_key_issues ((List.filter_sublist.map Rule.name).nodup h) file n

theorem line_of_mem_lineIssues {rules : List Rule} {n : Nat} {line : List Char}
    (h : i ∈ lineIssues rules file n line) : i.line = some n := by
  obtain ⟨r, _, rfl⟩ := List.mem_map.mp h
  rfl

theorem nodup_key_scanLines (a : Analyzer) (file : CodeString) (text : List Char) :
    ((scanLines a.catalog file text).map Issue.key).Nodup := by
  have hrules : ((a.catalog.forExtension (FileName.suffix file)).map Rule.name).Nodup :=
    (List.filter_sublist.map Rule.name).nodup
      (List.nodup_append.mp (List.nodup_append.mp (nodup_ruleNames a)).1).1
  refine nodup_key_flatMap (fun _ _ => nodup_key_lineIssues hrules _ _ _) ?_
  have hnumbers : ((Text.lines text).zipIdx.map Prod.snd).Nodup := by
    rw [List.zipIdx_map_snd]
    exact List.nodup_range'
  refine (List.pairwise_map.mp hnumbers).imp ?_
  intro x y hne i hi j hj heq
  have hline := congrArg (·.2.1) heq
  simp only [Issue.key, line_of_mem_lineIssues hi, line_of_mem_lineIssues hj, Option.some.injEq] at hline
  exact hne (Nat.succ.inj hline)

theorem nodup_key_functionLength (config : Config) (file : CodeString) (text : List Char) :
    ((FileCheck.functionLength config file text).map Issue.key).Nodup := by
  rw [FileCheck.functionLength]
  cases Language.ofFile? file with
  | none => exact List.nodup_nil
  | some language =>
    apply List.Nodup.of_map (·.2.1)
    rw [List.map_map, List.map_map]
    have hstarts := (FunctionSpan.pairwise_startLine_ofText language text).sublist
      (List.filter_sublist (p := fun f => config.functionLengthMedium < f.lines))
    refine List.pairwise_map.mpr (hstarts.imp ?_)
    intro f g hlt heq
    exact absurd (Option.some.inj heq) (Nat.ne_of_lt hlt)

theorem ruleIn_of_mem_scanLines (h : i ∈ scanLines a.catalog file text) :
    i.RuleIn (a.catalog.rules.map Rule.name) := by
  obtain ⟨r, hr, _, _, _, _, _, _, rfl⟩ := mem_scanLines.mp h
  exact ⟨r.name, List.mem_map_of_mem hr, rfl⟩

theorem ruleIn_of_mem_functionLength (h : i ∈ FileCheck.functionLength config file text) :
    i.RuleIn ["function_length"] := by
  obtain ⟨_, f, _, _, _, rfl⟩ := FileCheck.mem_functionLength.mp h
  exact ⟨_, List.mem_singleton_self _, rfl⟩

theorem atMostOne_complexity (config : Config) (file : CodeString) (text : List Char) :
    AtMostOne "aggregate_complexity" (FileCheck.complexity config file text) := by
  simp only [FileCheck.complexity]
  split
  · exact Or.inl rfl
  · exact Or.inr ⟨_, rfl, rfl⟩

theorem atMostOne_fileSize (config : Config) (file : CodeString) (size : Int) :
    AtMostOne "large_file" ((FileCheck.fileSize config file size).toOption.getD []) := by
  rw [FileCheck.fileSize]
  split
  · exact Or.inl rfl
  · cases FileCheck.kibibytes? size with
    | none => exact Or.inl rfl
    | some n => exact Or.inr ⟨_, rfl, rfl⟩

/-- The names of the rules that the checks of a file have. -/
def fileRuleNames (a : Analyzer) : List String := a.catalog.rules.map Rule.name ++ FileCheck.ruleNames

theorem ruleIn_of_mem_findings {bytes : Option FileBytes} (h : i ∈ findings a config file bytes) :
    i.RuleIn (fileRuleNames a) := by
  have ofCheck : ∀ {name}, name ∈ FileCheck.ruleNames → i.RuleIn [name] → i.RuleIn (fileRuleNames a) := by
    intro name hname hi
    exact hi.mono (List.cons_subset.mpr ⟨List.mem_append_right _ hname, List.nil_subset _⟩)
  cases bytes with
  | none => cases h
  | some b =>
    simp only [findings] at h
    split at h
    · simp only [List.mem_append] at h
      rcases h with ((hrule | hscore) | hlong) | hlarge
      · exact (ruleIn_of_mem_scanLines hrule).mono (List.subset_append_left _ _)
      · exact ofCheck (by decide) ((atMostOne_complexity _ _ _).ruleIn hscore)
      · exact ofCheck (by decide) (ruleIn_of_mem_functionLength hlong)
      · exact ofCheck (by decide) ((atMostOne_fileSize _ _ _).ruleIn hlarge)
    · exact (ruleIn_of_mem_scanLines h).mono (List.subset_append_left _ _)

/-- The findings in one file are told apart. -/
theorem nodup_key_findings (a : Analyzer) (config : Config) (file : CodeString)
    (bytes : Option FileBytes) : ((findings a config file bytes).map Issue.key).Nodup := by
  cases bytes with
  | none => exact List.nodup_nil
  | some b =>
    simp only [findings]
    split
    · have hnames := (List.nodup_append.mp (nodup_ruleNames a)).1
      have hdisjoint := List.disjoint_of_nodup_append hnames
      have hrule : ∀ {name : String} {i j : Issue}, name ∈ FileCheck.ruleNames →
          i ∈ scanLines a.catalog file (Text.ofBytes b.bytes) → j.RuleIn [name] → i.key ≠ j.key := by
        intro name i j hname hi hj
        refine key_ne_of_ruleIn ?_ (ruleIn_of_mem_scanLines hi) hj
        exact List.disjoint_singleton.mpr fun hmem => hdisjoint hmem hname
      refine nodup_key_append (nodup_key_append (nodup_key_append (nodup_key_scanLines a file _)
        (atMostOne_complexity _ _ _).nodup_key ?_) (nodup_key_functionLength _ _ _) ?_)
        (atMostOne_fileSize _ _ _).nodup_key ?_
      · intro i hi j hj
        exact hrule (by decide) hi ((atMostOne_complexity _ _ _).ruleIn hj)
      · intro i hi j hj
        rcases List.mem_append.mp hi with hi | hi
        · exact hrule (by decide) hi (ruleIn_of_mem_functionLength hj)
        · exact key_ne_of_ruleIn (by simp) ((atMostOne_complexity _ _ _).ruleIn hi)
            (ruleIn_of_mem_functionLength hj)
      · intro i hi j hj
        have hj := (atMostOne_fileSize _ _ _).ruleIn hj
        rcases List.mem_append.mp hi with hi | hi
        · rcases List.mem_append.mp hi with hi | hi
          · exact hrule (by decide) hi hj
          · exact key_ne_of_ruleIn (by simp) ((atMostOne_complexity _ _ _).ruleIn hi) hj
        · exact key_ne_of_ruleIn (by simp) (ruleIn_of_mem_functionLength hi) hj
    · exact nodup_key_scanLines a file _

end Scan

/-! ## Findings on the project's own files -/

namespace Manifest

variable {issue : String → Issue} {names : List CodeString} {found : List Issue} {i : Issue}

theorem nodup_key_issuesAbout (hissue : ∀ s t, (issue s).message = (issue t).message → s = t)
    (hnames : names.Nodup) (h : issuesAbout issue names = .ok found) :
    (found.map Issue.key).Nodup := by
  obtain ⟨texts, rfl, rfl⟩ := issuesAbout_eq_ok.mp h
  rw [List.map_map]
  exact hnames.of_map.map fun s t heq => hissue s t (congrArg (·.2.2.2) heq)

theorem nodup_key_checkScripts {text : Option CodeString} (h : checkScripts text = .ok found) :
    (found.map Issue.key).Nodup ∧ ∀ i ∈ found, i.RuleIn ["piped_download_script"] := by
  obtain ⟨manifest, hload, h⟩ := bind_eq_ok.mp h
  cases manifest with
  | none =>
    cases h
    exact ⟨List.nodup_nil, fun i hi => absurd hi List.not_mem_nil⟩
  | some manifest =>
    refine ⟨nodup_key_issuesAbout ?_ ?_ h, fun i hi => ?_⟩
    · intro s t heq
      exact (String.append_right_inj _).mp heq
    · exact (nodup_names_membersOf hload "scripts").sublist (List.filter_sublist.map _)
    · obtain ⟨name, rfl⟩ := exists_of_mem_issuesAbout h hi
      exact ⟨_, List.mem_singleton_self _, rfl⟩

theorem nodup_key_checkDependencies {config : Config} {text : Option CodeString}
    (h : checkDependencies config text = .ok found) :
    (found.map Issue.key).Nodup ∧ ∀ i ∈ found, i.RuleIn ["heavy_dependency", "dependency_count"] := by
  obtain ⟨manifest, hload, h⟩ := bind_eq_ok.mp h
  cases manifest with
  | none =>
    cases h
    exact ⟨List.nodup_nil, fun i hi => absurd hi List.not_mem_nil⟩
  | some manifest =>
    obtain ⟨heavy, hheavy, h⟩ := bind_eq_ok.mp h
    cases h
    have hrule : ∀ i ∈ heavy, i.RuleIn ["heavy_dependency"] := by
      intro i hi
      obtain ⟨name, rfl⟩ := exists_of_mem_issuesAbout hheavy hi
      exact ⟨_, List.mem_singleton_self _, rfl⟩
    have hcount : AtMostOne "dependency_count"
        (if config.maxDependencies < ((membersOf manifest "dependencies").map (·.1)).length then
          [manyDependencies ((membersOf manifest "dependencies").map (·.1)).length] else []) :=
      atMostOne_ite rfl
    refine ⟨nodup_key_append ?_ hcount.nodup_key fun i hi j hj => ?_, fun i hi => ?_⟩
    · refine nodup_key_issuesAbout (fun s t heq => (String.append_right_inj _).mp heq) ?_ hheavy
      exact (nodup_names_membersOf hload "dependencies").sublist List.filter_sublist
    · exact key_ne_of_ruleIn (by simp) (hrule i hi) (hcount.ruleIn hj)
    · rcases List.mem_append.mp hi with hi | hi
      · exact (hrule i hi).mono (by decide)
      · exact (hcount.ruleIn hi).mono (by decide)

end Manifest

namespace BuildConfig

variable {i : Issue}

theorem file_of_mem_issues {name : CodeString} {text : List Char} (h : i ∈ issues name text) :
    i.file = name := by
  rcases List.mem_append.mp h with hi | hi <;> split at hi
  · rw [List.mem_singleton.mp hi]
    rfl
  · cases hi
  · rw [List.mem_singleton.mp hi]
    rfl
  · cases hi

theorem nodup_key_issues (name : CodeString) (text : List Char) :
    ((issues name text).map Issue.key).Nodup ∧
      ∀ i ∈ issues name text, i.RuleIn ["webpack_optimization", "production_source_maps"] := by
  have hwebpack : AtMostOne "webpack_optimization"
      (if holds (CodeString.ofString "webpack") name && !mentions text "optimization" then
        [withoutOptimization name] else []) := atMostOne_ite rfl
  have hmaps : AtMostOne "production_source_maps"
      (if mentions text "source-map" && mentions text "production" then [sourceMaps name] else []) :=
    atMostOne_ite rfl
  refine ⟨nodup_key_append hwebpack.nodup_key hmaps.nodup_key fun i hi j hj => ?_, fun i hi => ?_⟩
  · exact key_ne_of_ruleIn (by simp) (hwebpack.ruleIn hi) (hmaps.ruleIn hj)
  · rcases List.mem_append.mp hi with hi | hi
    · exact (hwebpack.ruleIn hi).mono (by decide)
    · exact (hmaps.ruleIn hi).mono (by decide)

theorem nodup_key_issuesIn (read : String → Option (List Char)) :
    ((issuesIn read).map Issue.key).Nodup ∧
      ∀ i ∈ issuesIn read, i.RuleIn ["webpack_optimization", "production_source_maps"] := by
  refine ⟨nodup_key_flatMap (fun name _ => ?_) ?_, fun i hi => ?_⟩
  · split
    · exact (nodup_key_issues _ _).1
    · exact List.nodup_nil
  · have hnames : fileNames.Nodup := by decide
    refine hnames.imp ?_
    intro name other hne i hi j hj heq
    have hij : i.file = j.file := congrArg (·.1) heq
    split at hi
    · split at hj
      · rw [file_of_mem_issues hi, file_of_mem_issues hj] at hij
        exact hne (CodeString.ofString_injective hij)
      · cases hj
    · cases hi
  · obtain ⟨name, _, hi⟩ := List.mem_flatMap.mp hi
    split at hi
    · exact (nodup_key_issues _ _).2 i hi
    · cases hi

end BuildConfig

theorem Requirements.nodup_key_issuesIn (text : Option (List Char)) :
    ((issuesIn text).map Issue.key).Nodup ∧
      ∀ i ∈ issuesIn text, i.RuleIn ["python_dependency_count", "heavy_python_package"] := by
  cases text with
  | none => exact ⟨List.nodup_nil, fun i hi => absurd hi List.not_mem_nil⟩
  | some text =>
    have hcount : AtMostOne "python_dependency_count"
        (if maxRequirements < (ofText text).length then [tooMany (ofText text).length] else []) :=
      atMostOne_ite rfl
    have hrule : ∀ i ∈ (heavyPackages.filter ((ofText text).map packageName).contains).map heavyPackage,
        i.RuleIn ["heavy_python_package"] := by
      intro i hi
      obtain ⟨name, _, rfl⟩ := List.mem_map.mp hi
      exact ⟨_, List.mem_singleton_self _, rfl⟩
    have hpackages : heavyPackages.Nodup := by decide
    refine ⟨nodup_key_append hcount.nodup_key ?_ fun i hi j hj => ?_, fun i hi => ?_⟩
    · rw [List.map_map]
      refine (hpackages.sublist List.filter_sublist).map fun s t heq => ?_
      exact (String.append_right_inj _).mp (congrArg (·.2.2.2) heq)
    · exact key_ne_of_ruleIn (by simp) (hcount.ruleIn hi) (hrule j hj)
    · rcases List.mem_append.mp hi with hi | hi
      · exact (hcount.ruleIn hi).mono (by decide)
      · exact (hrule i hi).mono (by decide)

namespace Scan

variable {a : Analyzer} {config : Config} {top : Node} {root : Door}

theorem nodup_key_plainFindings (top : Node) (root : Door) :
    ((plainFindings top root).map Issue.key).Nodup ∧ ∀ i ∈ plainFindings top root, i.RuleIn
      ["webpack_optimization", "production_source_maps", "python_dependency_count",
        "heavy_python_package"] := by
  obtain ⟨hb, hbrule⟩ := BuildConfig.nodup_key_issuesIn (projectText? top root)
  obtain ⟨hr, hrrule⟩ := Requirements.nodup_key_issuesIn (projectText? top root Requirements.fileName)
  refine ⟨nodup_key_append hb hr fun i hi j hj => ?_, fun i hi => ?_⟩
  · exact key_ne_of_ruleIn (by simp) (hbrule i hi) (hrrule j hj)
  · rcases List.mem_append.mp hi with hi | hi
    · exact (hbrule i hi).mono (by decide)
    · exact (hrrule i hi).mono (by decide)

/-- The findings on the project's own files are told apart, and their rules are none of the walk's. -/
theorem nodup_key_projectFindings (a : Analyzer) (config : Config) (top : Node) (root : Door) :
    ((projectFindings a config top root).map Issue.key).Nodup ∧
      ∀ i ∈ projectFindings a config top root, i.RuleIn projectRuleNames := by
  cases a with
  | security =>
    rw [projectFindings_security]
    cases h : Manifest.checkScripts ((projectText? top root Manifest.fileName).map CodeString.ofChars) with
    | error e => exact ⟨List.nodup_nil, fun i hi => absurd hi List.not_mem_nil⟩
    | ok found =>
      obtain ⟨hnodup, hrule⟩ := Manifest.nodup_key_checkScripts h
      exact ⟨hnodup, fun i hi => (hrule i hi).mono (by decide)⟩
  | performance =>
    rw [projectFindings_performance]
    cases h : Manifest.checkDependencies config
        ((projectText? top root Manifest.fileName).map CodeString.ofChars) with
    | error e => exact ⟨List.nodup_nil, fun i hi => absurd hi List.not_mem_nil⟩
    | ok manifest =>
      obtain ⟨hm, hmrule⟩ := Manifest.nodup_key_checkDependencies h
      obtain ⟨hp, hprule⟩ := nodup_key_plainFindings top root
      refine ⟨nodup_key_append hm hp fun i hi j hj => ?_, fun i hi => ?_⟩
      · exact key_ne_of_ruleIn (by simp) (hmrule i hi) (hprule j hj)
      · rcases List.mem_append.mp hi with hi | hi
        · exact (hmrule i hi).mono (by decide)
        · exact (hprule i hi).mono (by decide)

/-- No finding of the walk is of a rule for the project's own files. -/
theorem rule_ne_of_mem_findings {file : CodeString} {bytes : Option FileBytes} {i j : Issue}
    (hi : i ∈ findings a config file bytes) (hj : j.RuleIn projectRuleNames) : i.rule ≠ j.rule :=
  rule_ne_of_ruleIn (List.disjoint_of_nodup_append (nodup_ruleNames a)) (ruleIn_of_mem_findings hi) hj

/-- **No finding is made twice.** The issues of a scan differ from one another in their file, their line,
their rule or their message, also where a file is both walked and looked at by name. -/
theorem nodup_of_scan (a : Analyzer) (config : Config) (time : RunTime) (root : Door)
    (hp : top.Proper) :
    ((scan a config time top root).issues.map fun i => (i.file, i.line, i.rule, i.message)).Nodup := by
  obtain ⟨hproject, hprojectRule⟩ := nodup_key_projectFindings a config top root
  have hpaths := List.pairwise_map.mp ((walk a config).nodup_text root hp)
  rw [issues_scan]
  refine nodup_key_append (nodup_key_flatMap (fun p _ => nodup_key_findings a config p.text _) ?_)
    hproject fun i hi j hj => ?_
  · refine hpaths.imp ?_
    intro p q hne i hi j hj heq
    have hfile : i.file = j.file := congrArg (·.1) heq
    rw [file_of_mem_findings hi, file_of_mem_findings hj] at hfile
    exact hne hfile
  · obtain ⟨p, _, hi⟩ := List.mem_flatMap.mp hi
    exact fun heq => rule_ne_of_mem_findings hi (hprojectRule j hj) (congrArg (·.2.2.1) heq)

/-- A directory with a build configuration, which is walked and is looked at by its name as well. -/
def configured : Node :=
  .dir true [("webpack.config.js", .file (.open ⟨"while(true)".toUTF8, by decide +kernel⟩))]

theorem configured_proper : configured.Proper := .single (by decide) (.file _)

theorem files_configured :
    (walk .performance {}).files configured .top = [[("webpack.config.js" : CodeString)]] :=
  Walk.files_singleFile (by decide +kernel)

theorem projectText?_configured :
    projectText? configured .top "webpack.config.js" = some "while(true)".toList ∧
      projectText? configured .top Manifest.fileName = none := by
  constructor
  · rw [projectText?, configured, contentAt?_file (by decide) rfl]
    decide +kernel
  · exact projectText?_missing (by decide) (by decide)

/-- The finding by name is the only one of its rule. -/
theorem nodup_of_scan_configured :
    configured.Proper ∧
      [("webpack.config.js" : CodeString)] ∈ (walk .performance {}).files configured .top ∧
      BuildConfig.withoutOptimization "webpack.config.js" ∈
        (scan .performance {} ⟨"", 0⟩ configured .top).issues ∧
      ((scan .performance {} ⟨"", 0⟩ configured .top).issues.map fun i =>
        (i.file, i.line, i.rule, i.message)).Nodup := by
  refine ⟨configured_proper, ?_, mem_scan_issues.mpr (Or.inr ?_), ?_⟩
  · rw [files_configured]
    exact List.mem_singleton_self _
  · rw [projectFindings_performance, projectText?_configured.2]
    have hname : "webpack.config.js" ∈ BuildConfig.fileNames := by decide
    refine List.mem_append_right [] (List.mem_append_left _ (List.mem_flatMap.mpr ⟨_, hname, ?_⟩))
    rw [projectText?_configured.1]
    decide +kernel
  · exact nodup_of_scan .performance {} ⟨"", 0⟩ .top configured_proper

end Scan

end SourceScan
