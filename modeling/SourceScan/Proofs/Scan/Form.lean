import SourceScan.Proofs.Issue.Form
import SourceScan.Proofs.Scan.Outcome

/-!
# The form of scan results

A scan result is read again from the object that it is written as if its issues keep the rules of their form
(`ScanResult.check_toJson`). Those of a result that was read do (`ScanResult.kept_of_check`), and so do those
of a scan, since each of them was looked over (`Scan.kept_of_mem_scan`). So both kinds of result are read
again as they were (`ScanResult.ofJson_toJson`, `ScanResult.ofJson_toJson_scan`).
-/

namespace SourceScan

theorem Analyzer.check_name (a : Analyzer) : check (.text a.name) = .ok a :=
  Json.checkName_text (by cases a <;> decide)

theorem Summary.check_toJson (s : Summary) : check s.toJson = .ok s := rfl

namespace ScanResult

variable {r : ScanResult} {v : Json} {ms : Members}

/-- The members of an object give the parts of a scan result. -/
structure ReadFrom (r : ScanResult) (ms : Members) : Prop where
  analyzer : Json.required ms "analyzer" Analyzer.check = .ok r.analyzer
  timestamp : Json.required ms "timestamp" Json.checkString = .ok r.timestamp
  issues : Json.optional ms "issues" [] (Json.checkList .notTuple Issue.check) = .ok r.issues
  filesScanned : Json.optional ms "files_scanned" 0 Json.checkInt = .ok r.filesScanned
  durationMs : Json.optional ms "duration_ms" 0 Json.checkInt = .ok r.durationMs
  summary : Json.optional ms "summary" {} Summary.check = .ok r.summary
  recommendations :
    Json.optional ms "recommendations" [] (Json.checkList .notTuple Json.checkString) = .ok r.recommendations

theorem check_obj_eq_ok : check (.obj ms) = .ok r ↔ r.ReadFrom ms := by
  have hread : check (.obj ms) = .ok r ↔ ∃ s, check (.obj ms) = .ok s ∧ s = r := by simp
  rw [hread]
  simp only [check, Json.checkObject, Checked.exists_seq_eq_ok, Checked.exists_map_eq_ok]
  constructor
  · rintro ⟨_, hadvice, _, hsummary, _, hduration, _, hfiles, _, hissues, _, htimestamp, _, hanalyzer, rfl⟩
    exact ⟨hanalyzer, htimestamp, hissues, hfiles, hduration, hsummary, hadvice⟩
  · intro h
    exact ⟨_, h.recommendations, _, h.summary, _, h.durationMs, _, h.filesScanned, _, h.issues, _, h.timestamp,
      _, h.analyzer, rfl⟩

/-- The issues of a result that is read keep their rules. -/
theorem kept_of_check (h : check v = .ok r) : ∀ i ∈ r.issues, i.Kept := by
  cases v with
  | obj ms =>
    intro i hi
    rcases Json.optional_eq_ok.mp (check_obj_eq_ok.mp h).issues with ⟨_, hnone⟩ | ⟨w, _, hw⟩
    · rw [hnone] at hi
      cases hi
    · obtain ⟨item, hitem⟩ := Json.exists_of_mem_checkList hw hi
      exact Issue.kept_of_check hitem
  | _ => cases h

/-- A result whose issues keep their rules is read from what is written of it. -/
theorem check_toJson (h : ∀ i ∈ r.issues, i.Kept) : check r.toJson = .ok r := by
  have hissues : Json.checkList .notTuple Issue.check (.arr (r.issues.map Issue.toJson)) = .ok r.issues :=
    Json.checkList_map fun i hi => Issue.check_toJson (h i hi)
  have hadvice : Json.checkList .notTuple Json.checkString (.arr (r.recommendations.map .str)) =
      .ok r.recommendations :=
    Json.checkList_map fun _ _ => rfl
  exact check_obj_eq_ok.mpr
    { analyzer := Json.required_of_member rfl (Analyzer.check_name r.analyzer)
      timestamp := Json.required_of_member rfl rfl
      issues := Json.optional_of_member rfl hissues
      filesScanned := Json.optional_of_member rfl rfl
      durationMs := Json.optional_of_member rfl rfl
      summary := Json.optional_of_member rfl (Summary.check_toJson r.summary)
      recommendations := Json.optional_of_member rfl hadvice }

/-- A result that was read is read again from what is written of it. -/
theorem ofJson_toJson (h : ofJson v = .ok r) : ofJson r.toJson = .ok r := by
  have hcheck := (Checked.toExcept_eq_ok form).mp h
  exact (Checked.toExcept_eq_ok form).mpr (check_toJson (kept_of_check hcheck))

end ScanResult

/-! ## Results of scans -/

namespace Scan

variable {a : Analyzer} {config : Config} {top : Node} {root : Door} {path : CodeString} {bytes : FileBytes}
  {found : List Issue}

/-- All findings on a file were looked over. -/
theorem kept_of_fileIssues (h : fileIssues a config path bytes = .ok found) : ∀ i ∈ found, i.Kept := by
  obtain ⟨onLines, hlines, h⟩ := bind_eq_ok.mp h
  split at h
  · obtain ⟨score, hscore, h⟩ := bind_eq_ok.mp h
    obtain ⟨long, hlong, h⟩ := bind_eq_ok.mp h
    obtain ⟨_, _, h⟩ := bind_eq_ok.mp h
    obtain ⟨size, hsize, h⟩ := bind_eq_ok.mp h
    cases h
    simp only [List.forall_mem_append]
    exact ⟨⟨⟨kept_of_vetAll_eq_ok hlines, kept_of_vetAll_eq_ok hscore⟩, kept_of_vetAll_eq_ok hlong⟩,
      kept_of_vetAll_eq_ok hsize⟩
  · cases h
    exact kept_of_vetAll_eq_ok hlines

/-- All findings on the project's own files were looked over. -/
theorem kept_of_projectIssues (h : projectIssues a config top root = .ok found) : ∀ i ∈ found, i.Kept := by
  obtain ⟨_, _, hvet⟩ := bind_eq_ok.mp h
  exact kept_of_vetAll_eq_ok hvet

/-- The issues of a scan keep the rules of their form. -/
theorem kept_of_mem_scan (a : Analyzer) (config : Config) (time : RunTime) (top : Node) (root : Door) :
    ∀ i ∈ (scan a config time top root).issues, i.Kept := by
  rw [issues_scan, List.forall_mem_append]
  constructor
  · intro i hi
    obtain ⟨p, _, hi⟩ := List.mem_flatMap.mp hi
    have hfile := pathIssues_eq_ok a config p.text (walkedBytes? top root p)
    cases hbytes : walkedBytes? top root p with
    | none =>
      rw [hbytes] at hi
      cases hi
    | some b =>
      rw [hbytes] at hi hfile
      exact kept_of_fileIssues hfile i hi
  · rw [projectFindings]
    split
    · next more hmore => exact kept_of_projectIssues hmore
    · exact fun i hi => absurd hi List.not_mem_nil

end Scan

/-- The result of a scan is read from what is written of it. -/
theorem ScanResult.ofJson_toJson_scan (a : Analyzer) (config : Config) (time : RunTime) (top : Node)
    (root : Door) : ofJson (scan a config time top root).toJson = .ok (scan a config time top root) :=
  (Checked.toExcept_eq_ok form).mpr (check_toJson (Scan.kept_of_mem_scan a config time top root))

end SourceScan
