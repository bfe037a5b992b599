import SourceScan.Proofs.Scan.Advice
import SourceScan.Proofs.Scan.Project
import SourceScan.Proofs.Walk.Recursion

/-!
# Scans with higher thresholds

Higher thresholds take findings away and make others milder, and do nothing else (`scan_of_laxer`). No pair
of thresholds need be in order: a check that finds something asks its first threshold alone, and its second
one how severe that is, so each of them counts for itself.

What a laxer configuration shares with the other one decides which files are walked and which dependencies
are heavy, so the walk, and whether the manifest can be checked, are the same for both.
-/

namespace SourceScan

/-! ## Milder findings -/

/-- One of two severities is milder for a narrower condition. -/
theorem Severity.rank_ite_le {p q : Prop} [Decidable p] [Decidable q] {grave mild : Severity} (hpq : p → q)
    (hle : mild.rank ≤ grave.rank) :
    (if p then grave else mild).rank ≤ (if q then grave else mild).rank := by
  by_cases hp : p
  · rw [if_pos hp, if_pos (hpq hp)]
  · rw [if_neg hp]
    split
    · exact hle
    · exact Nat.le_refl _

theorem Severity.eq_critical_of_rank_le {s : Severity} (h : Severity.critical.rank ≤ s.rank) :
    s = .critical := by
  cases s with
  | critical => rfl
  | _ => exact absurd h (by decide)

namespace Issue

variable {i j : Issue} {found found' : List Issue}

/-- An issue is another one but for its severity, which is of no higher rank. -/
def Milder (i j : Issue) : Prop :=
  i = { j with severity := i.severity } ∧ i.severity.rank ≤ j.severity.rank

instance : Std.Refl Milder := ⟨fun _ => ⟨rfl, Nat.le_refl _⟩⟩

theorem Milder.critical (h : Milder i j) (hi : i.severity = .critical) : j.severity = .critical := by
  have hrank := h.2
  rw [hi] at hrank
  exact Severity.eq_critical_of_rank_le hrank

/-- The first findings are the second, some of them left out and the others milder, in the same order. -/
def Softened : List Issue → List Issue → Prop := List.SublistForall₂ Milder

namespace Softened

theorem refl (found : List Issue) : Softened found found := (List.Sublist.refl found).sublistForall₂

theorem append {more more' : List Issue} (h : Softened found' found) (hmore : Softened more' more) :
    Softened (found' ++ more') (found ++ more) := by
  obtain ⟨kept, hkept, hsub⟩ := List.sublistForall₂_iff.mp h
  obtain ⟨keptMore, hkeptMore, hsubMore⟩ := List.sublistForall₂_iff.mp hmore
  exact List.sublistForall₂_iff.mpr ⟨_, List.rel_append hkept hkeptMore, hsub.append hsubMore⟩

theorem flatMap {α : Type} {f f' : α → List Issue} (h : ∀ x, Softened (f' x) (f x)) (l : List α) :
    Softened (l.flatMap f') (l.flatMap f) := by
  induction l with
  | nil => exact .nil
  | cons x l ih => exact (h x).append ih

/-- Findings that are made of fewer things, and are milder. -/
theorem filter_map {α : Type} {p p' : α → Bool} {f f' : α → Issue} (hp : ∀ x, p' x = true → p x = true)
    (hf : ∀ x, Milder (f' x) (f x)) (l : List α) : Softened ((l.filter p').map f') ((l.filter p).map f) := by
  refine List.sublistForall₂_iff.mpr ⟨(l.filter p').map f, ?_, (List.monotone_filter_right l hp).map f⟩
  rw [List.forall₂_map_left_iff, List.forall₂_map_right_iff, List.forall₂_same]
  exact fun x _ => hf x

theorem countP_le {p : Issue → Bool} (hp : ∀ i j, Milder i j → p i = true → p j = true)
    (h : Softened found' found) : found'.countP p ≤ found.countP p := by
  induction h with
  | nil => exact Nat.zero_le _
  | @cons i j found' found hmilder _ ih =>
    rw [List.countP_cons, List.countP_cons]
    by_cases hi : p i = true
    · rw [if_pos hi, if_pos (hp i j hmilder hi)]
      omega
    · rw [if_neg hi]
      omega
  | cons_right _ ih =>
    rw [List.countP_cons]
    omega

theorem length_le (h : Softened found' found) : found'.length ≤ found.length := by
  obtain ⟨kept, hkept, hsub⟩ := List.sublistForall₂_iff.mp h
  rw [hkept.length_eq]
  exact hsub.length_le

end Softened

end Issue

/-! ## Laxer configurations -/

/-- A configuration has thresholds that are as high as those of another one or higher, and shares with it
what is no threshold. -/
structure Config.Laxer (c c' : Config) : Prop where
  extraExcludeDirs : c'.extraExcludeDirs = c.extraExcludeDirs
  maxDepth : c'.maxDepth = c.maxDepth
  heavyDependencies : c'.heavyDependencies = c.heavyDependencies
  largeFileBytes : c.largeFileBytes ≤ c'.largeFileBytes
  criticalFileBytes : c.criticalFileBytes ≤ c'.criticalFileBytes
  complexityHigh : c.complexityHigh ≤ c'.complexityHigh
  complexityCritical : c.complexityCritical ≤ c'.complexityCritical
  functionLengthMedium : c.functionLengthMedium ≤ c'.functionLengthMedium
  functionLengthHigh : c.functionLengthHigh ≤ c'.functionLengthHigh
  maxDependencies : c.maxDependencies ≤ c'.maxDependencies

variable {c c' : Config}

namespace FileCheck

theorem complexity_softened (h : c.Laxer c') (file : CodeString) (text : List Char) :
    Issue.Softened (complexity c' file text) (complexity c file text) := by
  have hhigh := h.complexityHigh
  have hcritical := h.complexityCritical
  simp only [complexity]
  by_cases hscore : (Complexity.score text.toArray : Int) ≤ c'.complexityHigh
  · rw [if_pos hscore]
    exact .nil
  · have hfound : ¬(Complexity.score text.toArray : Int) ≤ c.complexityHigh := by omega
    rw [if_neg hscore, if_neg hfound]
    exact .cons ⟨rfl, Severity.rank_ite_le (by omega) (by decide)⟩ .nil

theorem functionLength_softened (h : c.Laxer c') (file : CodeString) (text : List Char) :
    Issue.Softened (functionLength c' file text) (functionLength c file text) := by
  have hmedium := h.functionLengthMedium
  have hhigh := h.functionLengthHigh
  unfold functionLength
  split
  · exact .nil
  · refine Issue.Softened.filter_map (fun f hf => ?_) (fun f => ?_) _
    · rw [decide_eq_true_eq] at hf ⊢
      omega
    · exact ⟨rfl, Severity.rank_ite_le (by omega) (by decide)⟩

theorem fileSize_softened (h : c.Laxer c') (file : CodeString) (size : Int) :
    Issue.Softened ((fileSize c' file size).toOption.getD []) ((fileSize c file size).toOption.getD []) := by
  have hlarge := h.largeFileBytes
  have hcritical := h.criticalFileBytes
  unfold fileSize
  by_cases hsize : size ≤ c'.largeFileBytes
  · rw [if_pos hsize]
    exact .nil
  · have hfound : ¬size ≤ c.largeFileBytes := by omega
    rw [if_neg hsize, if_neg hfound]
    split
    · exact .nil
    · exact .cons ⟨rfl, Severity.rank_ite_le (by omega) (by decide)⟩ .nil

end FileCheck

namespace Manifest

/-- The dependencies can be checked for both configurations or for neither. -/
theorem checkDependencies_softened (h : c.Laxer c') (text : Option CodeString) :
    (∃ found' found, checkDependencies c' text = .ok found' ∧ checkDependencies c text = .ok found ∧
      Issue.Softened found' found) ∨
      ∃ e, checkDependencies c' text = .error e ∧ checkDependencies c text = .error e := by
  unfold checkDependencies
  cases load text with
  | error e => exact Or.inr ⟨e, rfl, rfl⟩
  | ok manifest =>
    cases manifest with
    | none => exact Or.inl ⟨[], [], rfl, rfl, .nil⟩
    | some ms =>
      simp only [bind, Except.bind, dependencyIssues, h.heavyDependencies]
      have hmax := h.maxDependencies
      cases issuesAbout heavyDependency
          (((membersOf ms "dependencies").map (·.1)).filter c.heavyDependencies.contains) with
      | error e => exact Or.inr ⟨e, rfl, rfl⟩
      | ok heavy =>
        refine Or.inl ⟨_, _, rfl, rfl, (Issue.Softened.refl heavy).append ?_⟩
        by_cases hmany : c'.maxDependencies < ((membersOf ms "dependencies").map (·.1)).length
        · rw [if_pos hmany, if_pos (by omega)]
          exact Issue.Softened.refl _
        · rw [if_neg hmany]
          exact .nil

end Manifest

namespace Scan

variable {time time' : RunTime} {top : Node} {root : Door}

theorem findings_softened (h : c.Laxer c') (a : Analyzer) (file : CodeString) (bytes : Option FileBytes) :
    Issue.Softened (findings a c' file bytes) (findings a c file bytes) := by
  cases bytes with
  | none => exact .nil
  | some b =>
    simp only [findings]
    split
    · exact (((Issue.Softened.refl _).append (FileCheck.complexity_softened h _ _)).append
        (FileCheck.functionLength_softened h _ _)).append (FileCheck.fileSize_softened h _ _)
    · exact Issue.Softened.refl _

theorem projectFindings_softened (h : c.Laxer c') (top : Node) (root : Door) :
    Issue.Softened (projectFindings .performance c' top root) (projectFindings .performance c top root) := by
  rw [projectFindings_performance, projectFindings_performance]
  rcases Manifest.checkDependencies_softened h
    ((projectText? top root Manifest.fileName).map CodeString.ofChars) with
    ⟨found', found, hfound', hfound, hsoftened⟩ | ⟨e, he', he⟩
  · rw [hfound', hfound]
    exact hsoftened.append (Issue.Softened.refl _)
  · rw [he', he]
    exact .nil

/-- **With higher thresholds a scan finds less, and finds it less severe.** Its issues are those of the other
scan, some of them left out and the rest as they were but for severities of lower rank, in the same order; so
neither their number nor that of the critical ones grows. -/
theorem scan_of_laxer (h : c.Laxer c') (time time' : RunTime) (top : Node) (root : Door) :
    Issue.Softened (scan .performance c' time' top root).issues
        (scan .performance c time top root).issues ∧
      (scan .performance c' time' top root).summary.total ≤
        (scan .performance c time top root).summary.total ∧
      (scan .performance c' time' top root).summary.critical ≤
        (scan .performance c time top root).summary.critical := by
  have hwalk : walk .performance c' = walk .performance c := by
    rw [walk, walk, h.extraExcludeDirs, h.maxDepth]
  have hissues : Issue.Softened (scan .performance c' time' top root).issues
      (scan .performance c time top root).issues := by
    rw [issues_scan, issues_scan, hwalk]
    refine Issue.Softened.append (Issue.Softened.flatMap (fun p => ?_) _) (projectFindings_softened h top root)
    exact findings_softened h _ _ _
  refine ⟨hissues, ?_, ?_⟩
  · have hlength := hissues.length_le
    have htotal : ∀ c time, (scan .performance c time top root).summary.total =
        (scan .performance c time top root).issues.length := fun _ _ => Summary.total_ofIssues _
    rw [htotal, htotal]
    exact Int.ofNat_le.mpr hlength
  · refine Int.ofNat_le.mpr (hissues.countP_le fun i j hmilder hi => ?_)
    rw [beq_iff_eq] at hi ⊢
    exact hmilder.critical hi

/-- A file in which the flow branches once. -/
def branching : FileBytes := ⟨"if (a) b".toUTF8, by decide +kernel⟩

/-- Thresholds that the file passes: both for its complexity, and the first for its size. -/
def strict : Config := { complexityHigh := 1, complexityCritical := 1, largeFileBytes := 7 }

/-- Thresholds of which the file passes the first for its complexity alone. -/
def lenient : Config := { strict with complexityCritical := 2, largeFileBytes := 8 }

theorem severities_branching :
    (findings .performance strict "x.js" (some branching)).map (·.severity) = [.critical, .high] ∧
      (findings .performance lenient "x.js" (some branching)).map (·.severity) = [.high] := by
  decide +kernel

/-- A project of that file alone. -/
def branchingOnly : Node := .dir true [("x.js", .file (.open branching))]

theorem issues_branchingOnly (c : Config) (h : walk .performance c = walk .performance strict) :
    (scan .performance c ⟨"", 0⟩ branchingOnly .top).issues =
      findings .performance c "x.js" (some branching) := by
  have hfiles : (walk .performance strict).files branchingOnly .top = [[("x.js" : CodeString)]] :=
    Walk.files_singleFile (by decide +kernel)
  have hbytes : walkedBytes? branchingOnly .top ["x.js"] = some branching := walkedBytes?_file (by decide) rfl
  have hmanifest : projectText? branchingOnly .top Manifest.fileName = none :=
    projectText?_missing (by decide) (by decide)
  have hplain : plainFindings branchingOnly .top = [] := by
    have hnames : ∀ name ∈ Requirements.fileName :: BuildConfig.fileNames,
        FileName.isProper name = true ∧ CodeString.ofString name ∉ [("x.js" : CodeString)] := by decide +kernel
    exact plainFindings_eq_nil fun name hname =>
      projectText?_missing (hnames name hname).1 (hnames name hname).2
  have hproject : projectFindings .performance c branchingOnly .top = [] := by
    rw [projectFindings_performance, hmanifest]
    exact hplain
  rw [issues_scan, h, hfiles, hproject, List.append_nil, List.flatMap_singleton, hbytes]
  rfl

/-- With the higher thresholds the complexity is less severe, and the size is no finding. -/
theorem scan_of_laxer_lenient :
    strict.Laxer lenient ∧
      (scan .performance strict ⟨"", 0⟩ branchingOnly .top).issues.map (·.severity) = [.critical, .high] ∧
      (scan .performance lenient ⟨"", 0⟩ branchingOnly .top).issues.map (·.severity) = [.high] ∧
      Issue.Softened (scan .performance lenient ⟨"", 0⟩ branchingOnly .top).issues
        (scan .performance strict ⟨"", 0⟩ branchingOnly .top).issues ∧
      (scan .performance lenient ⟨"", 0⟩ branchingOnly .top).summary.total ≤
        (scan .performance strict ⟨"", 0⟩ branchingOnly .top).summary.total ∧
      (scan .performance lenient ⟨"", 0⟩ branchingOnly .top).summary.critical ≤
        (scan .performance strict ⟨"", 0⟩ branchingOnly .top).summary.critical := by
  have hlaxer : strict.Laxer lenient := by constructor <;> decide
  refine ⟨hlaxer, ?_, ?_, scan_of_laxer hlaxer _ _ _ _⟩
  · rw [issues_branchingOnly strict rfl]
    exact severities_branching.1
  · rw [issues_branchingOnly lenient rfl]
    exact severities_branching.2

end Scan

end SourceScan
