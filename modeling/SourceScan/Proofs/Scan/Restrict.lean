import Mathlib.Data.List.Nodup
import SourceScan.Proofs.Scan.Anchored
import SourceScan.Proofs.Walk.Files
import SourceScan.Proofs.Walk.Restrict

/-!
# Scans that look at less

A scan that passes over more directories, or goes down less far, is the other scan without what is about
the files that lie there (`scan_restrict`). What is found in a file does not depend on the others, and the
project's own files are at the root, where no directory is on the way.
-/

namespace SourceScan

namespace Scan

variable {a : Analyzer} {config : Config} {time time' : RunTime} {top : Node} {root : Door}
  {gone : CodeString → Bool}

/-- A result is another one without what is about some files: it has the issues about the others, in the
same order, and counts as many files less as there are of these among the files walked. -/
structure Without (gone : CodeString → Bool) (walked : List RelativePath) (r r' : ScanResult) : Prop where
  issues : r'.issues = r.issues.filter fun i => !gone i.file
  filesScanned : r'.filesScanned = r.filesScanned - (walked.countP fun p => gone p.text : Nat)

theorem flatMap_findings_filter (a : Analyzer) (config : Config) (top : Node) (root : Door)
    (gone : CodeString → Bool) (paths : List RelativePath) :
    ((paths.filter fun p => !gone p.text).flatMap fun p =>
        findings a config p.text (walkedBytes? top root p)) =
      (paths.flatMap fun p => findings a config p.text (walkedBytes? top root p)).filter
        fun i => !gone i.file := by
  induction paths with
  | nil => rfl
  | cons p paths ih =>
    rw [List.flatMap_cons, List.filter_append, ← ih, List.filter_cons]
    cases hgone : gone p.text with
    | false =>
      have hkept : (findings a config p.text (walkedBytes? top root p)).filter (fun i => !gone i.file) =
          findings a config p.text (walkedBytes? top root p) := by
        refine List.filter_eq_self.mpr fun i hi => ?_
        rw [file_of_mem_findings hi, hgone]
        rfl
      rw [hkept]
      rfl
    | true =>
      have hlost : (findings a config p.text (walkedBytes? top root p)).filter (fun i => !gone i.file) =
          [] := by
        refine List.filter_eq_nil_iff.mpr fun i hi => ?_
        rw [file_of_mem_findings hi, hgone]
        exact Bool.false_ne_true
      rw [hlost]
      rfl

/-- A scan whose walk yields fewer files is the other scan without what is about the others. -/
theorem without_of_files {dirs : List CodeString} {depth : Option Int}
    (hproject : ∀ name ∈ projectFiles, gone (CodeString.ofString name) = false)
    (hfiles : (walk a { config with extraExcludeDirs := dirs, maxDepth := depth }).files top root =
      ((walk a config).files top root).filter fun p => !gone p.text) :
    Without gone ((walk a config).files top root) (scan a config time top root)
      (scan a { config with extraExcludeDirs := dirs, maxDepth := depth } time' top root) := by
  constructor
  · have hkept : (projectFindings a config top root).filter (fun i => !gone i.file) =
        projectFindings a config top root := by
      refine List.filter_eq_self.mpr fun i hi => ?_
      obtain ⟨_, name, hname, hfile⟩ := place_of_mem_projectFindings hi
      rw [hfile, hproject name hname]
      rfl
    rw [issues_scan, issues_scan, hfiles, List.filter_append, hkept, ← flatMap_findings_filter]
    -- The findings of a file, and those of the project, do not ask what is walked.
    cases a <;> rfl
  · have hcount := List.length_eq_countP_add_countP (fun p : RelativePath => gone p.text)
      (l := (walk a config).files top root)
    have hrest : ((walk a config).files top root).countP (fun p => decide ¬gone p.text = true) =
        (((walk a config).files top root).filter fun p => !gone p.text).length := by
      rw [List.countP_eq_length_filter]
      simp only [Bool.not_eq_true, Bool.decide_eq_false]
    rw [filesScanned_scan, filesScanned_scan, hfiles]
    omega

theorem dirs_projectFiles : ∀ name ∈ projectFiles,
    FileName.dirs (CodeString.ofString name) = [] ∧
      (CodeString.ofString name).count FileName.slash = 0 := by
  decide +kernel

/-- **To look at less is to find less, and nothing else.** With more names of directories to pass over, a
scan has the issues about the files with none of these on their way; and if it may go down `d` levels, and
could go down all of them, it has those about the files with at most `d` slashes in their paths. The others
stay in their order, and as many files less are counted as lie there. -/
theorem scan_restrict (a : Analyzer) (config : Config) (time time' : RunTime) (root : Door)
    (hp : top.Proper) :
    (∀ X : List CodeString, (∀ s ∈ X, FileName.slash ∉ s) →
      Without (fun file => (FileName.dirs file).any X.contains) ((walk a config).files top root)
        (scan a config time top root)
        (scan a { config with extraExcludeDirs := config.extraExcludeDirs ++ X } time' top root)) ∧
      (config.maxDepth = none → ∀ d : Nat,
        Without (fun file => decide (d < file.count FileName.slash)) ((walk a config).files top root)
          (scan a config time top root)
          (scan a { config with maxDepth := some (d : Int) } time' top root)) := by
  constructor
  · intro X hX
    refine without_of_files (fun name hname => ?_) ?_
    · rw [(dirs_projectFiles name hname).1]
      rfl
    · have hfiles := (walk a config).files_skip root hp hX
      rw [walk, List.append_assoc] at hfiles
      exact hfiles
  · intro hdepth d
    refine without_of_files (fun name hname => ?_) ?_
    · rw [(dirs_projectFiles name hname).2]
      rfl
    · exact (walk a config).files_maxDepth root hp hdepth d

theorem files_walkSample : (walk .security {}).files Walk.sample .top =
    [[("b.py" : CodeString)], [("l.py" : CodeString)], [("a" : CodeString), "c.py"]] :=
  Walk.files_sample _ (by decide +kernel) (by decide +kernel)

/-- The directory of the sample holds one of its three files. -/
theorem scan_restrict_sample :
    Walk.sample.Proper ∧ (∀ s ∈ [("a" : CodeString)], FileName.slash ∉ s) ∧
      (scan .security {} ⟨"", 0⟩ Walk.sample .top).filesScanned = 3 ∧
      (scan .security { extraExcludeDirs := ["a"] } ⟨"", 0⟩ Walk.sample .top).filesScanned = 2 ∧
      (scan .security { maxDepth := some 0 } ⟨"", 0⟩ Walk.sample .top).filesScanned = 2 := by
  have hX : ∀ s ∈ [("a" : CodeString)], FileName.slash ∉ s := by decide
  have hthree : (scan .security {} ⟨"", 0⟩ Walk.sample .top).filesScanned = 3 := by
    rw [filesScanned_scan, files_walkSample]
    rfl
  obtain ⟨hskip, hdepth⟩ := scan_restrict .security {} ⟨"", 0⟩ ⟨"", 0⟩ .top Walk.sample_proper
  refine ⟨Walk.sample_proper, hX, hthree, ?_, ?_⟩
  · have hless := (hskip _ hX).filesScanned
    rw [hthree, files_walkSample] at hless
    exact hless
  · have hless := (hdepth rfl 0).filesScanned
    rw [hthree, files_walkSample] at hless
    exact hless

end Scan

end SourceScan
