import SourceScan.Proofs.Scan.Findings

/-!
# What a run comes to

No file ends a run: the check of each of them has an answer (`pathIssues_eq_ok`), so the loop goes through
all that the walk yields (`collect_eq`), and only the look at the project's own files may fail. Where it
does, nothing of it is kept and nothing else is lost (`scan_outcome`).

What is read is the tree as it stands: that a file changes while the run goes on is not described.
-/

namespace SourceScan

namespace Scan

variable {a : Analyzer} {config : Config} {top : Node} {root : Door}

/-- The loop goes through all paths, whatever was found before, and ends without an error. -/
theorem collect_eq (paths : List RelativePath) (issues : List Issue) (files : Nat) :
    collect a config top root paths issues files =
      (issues ++ paths.flatMap fun p => findings a config p.text (walkedBytes? top root p),
        files + paths.length, false) := by
  induction paths generalizing issues files with
  | nil =>
    rw [collect, List.flatMap_nil, List.append_nil]
    rfl
  | cons p rest ih =>
    rw [collect, pathIssues_eq_ok]
    simp only [ih, List.flatMap_cons, List.append_assoc, List.length_cons]
    rw [Nat.add_right_comm, Nat.add_assoc]

/-- What the look at the project's own files adds: all its findings, or none if it fails. -/
def projectFindings (a : Analyzer) (config : Config) (top : Node) (root : Door) : List Issue :=
  match projectIssues a config top root with
  | .ok more => more
  | .error _ => []

/-- A run finds what there is in each file, in the order of the walk, and then in the project's own. -/
theorem run_eq :
    run a config top root =
      ((((walk a config).files top root).flatMap fun p =>
          findings a config p.text (walkedBytes? top root p)) ++ projectFindings a config top root,
        ((walk a config).files top root).length) := by
  rw [run, collect_eq, projectFindings, List.nil_append, Nat.zero_add]
  cases projectIssues a config top root with
  | ok more => rfl
  | error e => simp only [List.append_nil]

theorem issues_scan (a : Analyzer) (config : Config) (time : RunTime) (top : Node) (root : Door) :
    (scan a config time top root).issues =
      (((walk a config).files top root).flatMap fun p =>
        findings a config p.text (walkedBytes? top root p)) ++ projectFindings a config top root := by
  rw [scan, run_eq]
  rfl

theorem filesScanned_scan (a : Analyzer) (config : Config) (time : RunTime) (top : Node) (root : Door) :
    (scan a config time top root).filesScanned = ((walk a config).files top root).length := by
  rw [scan, run_eq]
  rfl

end Scan

namespace Advice

/-- Each analyzer is known by its name, so its scans always have recommendations. -/
theorem forName_name (a : Analyzer) (summary : Summary) (issues : List Issue) :
    forName a.name summary issues = .ok (recommendations a summary issues) := by
  rw [forName, recommendations]
  split
  · cases a <;> rfl
  · rfl

end Advice

/-- The outcome of a scan, for every tree: the check of every file that the walk yields ends with its
findings, and one that cannot be read has none. The scan's issues are these, file by file in the order of
the walk, and then all the findings on the project's own files, or none if that check ends with an error.
Every yielded path is counted, and the advice is found. -/
theorem scan_outcome (a : Analyzer) (config : Config) (time : RunTime) (top : Node) (root : Door) :
    ∃ found : RelativePath → List Issue,
      (∀ p, match Scan.walkedBytes? top root p with
        | some b => Scan.fileIssues a config p.text b = .ok (found p)
        | none => found p = []) ∧
      (scan a config time top root).issues =
        ((Scan.walk a config).files top root).flatMap found ++
          (match Scan.projectIssues a config top root with
            | .ok more => more
            | .error _ => []) ∧
      (scan a config time top root).filesScanned = ((Scan.walk a config).files top root).length ∧
      Advice.forName a.name (scan a config time top root).summary (scan a config time top root).issues =
        .ok (scan a config time top root).recommendations := by
  refine ⟨fun p => Scan.findings a config p.text (Scan.walkedBytes? top root p), fun p => ?_, ?_, ?_, ?_⟩
  · dsimp only
    cases Scan.walkedBytes? top root p with
    | some b => exact Scan.pathIssues_eq_ok a config p.text (some b)
    | none => rfl
  · rw [scan, Scan.run_eq]
    rfl
  · rw [scan, Scan.run_eq]
    rfl
  · exact Advice.forName_name a _ _

end SourceScan
