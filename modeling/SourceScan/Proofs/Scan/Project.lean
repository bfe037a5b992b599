import SourceScan.Proofs.Check.Manifest
import SourceScan.Proofs.Scan.Outcome
import SourceScan.Proofs.Text.Ascii
import SourceScan.Proofs.Tree.Follow

/-!
# What is found in the project's own files

The findings on the project's own files keep the rules of issues, so nothing is lost when they are looked
over, and what a scan finds there is what the checks find: for security that of the scripts
(`projectFindings_security`), and for performance that of the dependencies, the build configurations and
the required packages together (`projectFindings_performance`). The manifest is the only part of either
that may end without an answer, and then there are no findings at all.

A file at the top holds what its entry does, and nothing is read where there is no entry (`contentAt?_file`,
`projectText?_missing`).
-/

namespace SourceScan

namespace Manifest

variable {text : Option CodeString} {config : Config} {found : List Issue}

theorem kept_of_checkScripts (h : checkScripts text = .ok found) : ∀ i ∈ found, i.Kept := by
  intro i hi
  obtain ⟨name, rfl⟩ := exists_of_mem_checkScripts h hi
  simp [Issue.Kept, pipedDownload]

theorem kept_of_checkDependencies (h : checkDependencies config text = .ok found) :
    ∀ i ∈ found, i.Kept := by
  intro i hi
  obtain ⟨name, rfl⟩ | ⟨n, rfl⟩ := exists_of_mem_checkDependencies h hi
  · simp [Issue.Kept, heavyDependency]
  · simp [Issue.Kept, manyDependencies]

end Manifest

namespace BuildConfig

variable {i : Issue}

/-- A finding on the build configurations is one of two, on one of the files. -/
theorem exists_of_mem_issuesIn {read : String → Option (List Char)} (h : i ∈ issuesIn read) :
    ∃ name ∈ fileNames, i = withoutOptimization name ∨ i = sourceMaps name := by
  obtain ⟨name, hname, hi⟩ := List.mem_flatMap.mp h
  refine ⟨name, hname, ?_⟩
  split at hi
  · rcases List.mem_append.mp hi with hi | hi <;> split at hi
    · exact Or.inl (List.mem_singleton.mp hi)
    · cases hi
    · exact Or.inr (List.mem_singleton.mp hi)
    · cases hi
  · cases hi

theorem kept_of_mem_issuesIn {read : String → Option (List Char)} (h : i ∈ issuesIn read) : i.Kept := by
  obtain ⟨name, _, rfl | rfl⟩ := exists_of_mem_issuesIn h
  · simp [Issue.Kept, withoutOptimization]
  · simp [Issue.Kept, sourceMaps]

end BuildConfig

namespace Requirements

variable {i : Issue}

/-- A finding on the required packages is about their number or about a heavy one. -/
theorem exists_of_mem_issuesIn {text : Option (List Char)} (h : i ∈ issuesIn text) :
    (∃ n, i = tooMany n) ∨ ∃ name, i = heavyPackage name := by
  cases text with
  | none => cases h
  | some text =>
    rcases List.mem_append.mp h with hi | hi
    · split at hi
      · exact Or.inl ⟨_, List.mem_singleton.mp hi⟩
      · cases hi
    · obtain ⟨name, _, rfl⟩ := List.mem_map.mp hi
      exact Or.inr ⟨name, rfl⟩

theorem kept_of_mem_issuesIn {text : Option (List Char)} (h : i ∈ issuesIn text) : i.Kept := by
  obtain ⟨n, rfl⟩ | ⟨name, rfl⟩ := exists_of_mem_issuesIn h
  · simp [Issue.Kept, tooMany]
  · simp [Issue.Kept, heavyPackage]

end Requirements

namespace Scan

variable {config : Config} {top : Node} {root : Door} {i : Issue}

theorem projectFindings_security :
    projectFindings .security config top root =
      (Manifest.checkScripts
        ((projectText? top root Manifest.fileName).map CodeString.ofChars)).toOption.getD [] := by
  rw [projectFindings, projectIssues, Analyzer.projectIssues]
  cases h : Manifest.checkScripts ((projectText? top root Manifest.fileName).map CodeString.ofChars) with
  | error e => rfl
  | ok found =>
    have hvet := vetAll_eq_ok (Manifest.kept_of_checkScripts h)
    simp only [bind, Except.bind, hvet]
    rfl

/-- The findings on the build configurations and the required packages, which need no manifest. -/
def plainFindings (top : Node) (root : Door) : List Issue :=
  BuildConfig.issuesIn (projectText? top root) ++
    Requirements.issuesIn (projectText? top root Requirements.fileName)

theorem projectFindings_performance :
    projectFindings .performance config top root =
      match Manifest.checkDependencies config
        ((projectText? top root Manifest.fileName).map CodeString.ofChars) with
      | .ok manifest => manifest ++ plainFindings top root
      | .error _ => [] := by
  rw [projectFindings, projectIssues, Analyzer.projectIssues]
  cases h : Manifest.checkDependencies config
      ((projectText? top root Manifest.fileName).map CodeString.ofChars) with
  | error e => rfl
  | ok manifest =>
    have hvet : vetAll (manifest ++ plainFindings top root) = .ok (manifest ++ plainFindings top root) := by
      refine vetAll_eq_ok fun i hi => ?_
      rcases List.mem_append.mp hi with hi | hi
      · exact Manifest.kept_of_checkDependencies h i hi
      · rcases List.mem_append.mp hi with hi | hi
        · exact BuildConfig.kept_of_mem_issuesIn hi
        · exact Requirements.kept_of_mem_issuesIn hi
    rw [plainFindings] at hvet ⊢
    simp only [bind, Except.bind, pure, Except.pure, List.append_assoc, hvet]

/-- For security, what the project's own files show is about scripts. -/
theorem exists_of_mem_security (h : i ∈ projectFindings .security config top root) :
    ∃ name, i = Manifest.pipedDownload name := by
  rw [projectFindings_security] at h
  cases hcheck : Manifest.checkScripts
      ((projectText? top root Manifest.fileName).map CodeString.ofChars) with
  | error e =>
    rw [hcheck] at h
    cases h
  | ok found =>
    rw [hcheck] at h
    exact Manifest.exists_of_mem_checkScripts hcheck h

/-- For performance, what the project's own files show is found in the manifest or without it. -/
theorem mem_of_mem_performance (h : i ∈ projectFindings .performance config top root) :
    (∃ found, Manifest.checkDependencies config
      ((projectText? top root Manifest.fileName).map CodeString.ofChars) = .ok found ∧ i ∈ found) ∨
      i ∈ plainFindings top root := by
  rw [projectFindings_performance] at h
  split at h
  · next manifest hmanifest =>
    exact (List.mem_append.mp h).imp_left fun hi => ⟨manifest, hmanifest, hi⟩
  · cases h

/-! ## The files at the top -/

section

variable {listable : Bool} {entries : List (CodeString × Node)}

/-- A file at the top holds what its entry does. -/
theorem contentAt?_file {name : CodeString} {c : Content} (hname : FileName.isProper name = true)
    (h : entries.lookup name = some (.file c)) : contentAt? (.dir listable entries) .top [name] = some c := by
  have hlink : ∀ target, entries.lookup name ≠ some (.link target) := by simp [h]
  rw [contentAt?, RelativePath.text_singleton, Node.open?_name rfl hname hlink, h]

theorem walkedBytes?_file {name : CodeString} {b : FileBytes} (hname : FileName.isProper name = true)
    (h : entries.lookup name = some (.file (.open b))) :
    walkedBytes? (.dir listable entries) .top [name] = some b :=
  congrArg (·.bind Content.walked?) (contentAt?_file hname h)

/-- Where there is no entry there is no text. -/
theorem projectText?_missing {name : String} (hname : FileName.isProper name = true)
    (h : CodeString.ofString name ∉ entries.map (·.1)) : projectText? (.dir listable entries) .top name = none := by
  have hnone : entries.lookup (CodeString.ofString name) = none := by
    refine List.lookup_eq_none_iff.mpr fun e he => bne_iff_ne.mpr fun heq => h ?_
    rw [heq]
    exact List.mem_map_of_mem he
  have hlink : ∀ target, entries.lookup (CodeString.ofString name) ≠ some (.link target) := by simp [hnone]
  rw [projectText?, contentAt?, RelativePath.text_singleton, Node.open?_name rfl hname hlink, hnone]
  rfl

end

/-- Without build configurations and required packages there are no findings on them. -/
theorem plainFindings_eq_nil
    (h : ∀ name ∈ Requirements.fileName :: BuildConfig.fileNames, projectText? top root name = none) :
    plainFindings top root = [] := by
  rw [plainFindings, h _ List.mem_cons_self]
  refine (List.append_nil _).trans (List.flatMap_eq_nil_iff.mpr fun name hname => ?_)
  rw [h name (List.mem_cons_of_mem _ hname)]

/-- A file of a text of ASCII characters without carriage returns is read as that text. -/
theorem projectText?_of_ascii {name : String} {file : FileBytes} {cs : List Char}
    (hfile : contentAt? top root [name] = some (.open file)) (hbytes : file.bytes = Text.asciiBytes cs)
    (hcs : cs.all Text.isOneByte = true) : projectText? top root name = some cs := by
  rw [projectText?, hfile, Option.bind_some, Content.named?, Option.map_some, hbytes,
    Text.ofBytes_asciiBytes hcs]

end Scan

end SourceScan
