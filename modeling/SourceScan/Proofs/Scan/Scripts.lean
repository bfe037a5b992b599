import Mathlib.Data.List.Nodup
import SourceScan.Proofs.Json.Complete
import SourceScan.Proofs.Json.Limit
import SourceScan.Proofs.Scan.Unique
import SourceScan.Proofs.Text.Ascii

/-!
# What is found in the scripts of a manifest

A manifest that is an object by the grammar is read as one, unless it passes a limit of the reader; and then
its scripts are reported, one finding to a script that pipes a download into a shell, in the order of the
names, unless one of these names is no text (`scripts_of_scan`). In both of the other cases nothing is
reported at all, so that what stands elsewhere in the manifest can hide a script
(`scripts_hidden_by_digits`).
-/

namespace SourceScan.Scan

variable {config : Config} {time : RunTime} {top : Node} {root : Door}

/-- The issues that are about scripts. -/
def scriptIssues (issues : List Issue) : List Issue :=
  issues.filter fun i => i.rule = CodeString.ofString "piped_download_script"

/-- The issues about scripts are those of the check of the manifest: no rule of the walk has their name. -/
theorem scriptIssues_scan (config : Config) (time : RunTime) (top : Node) (root : Door) :
    scriptIssues (scan .security config time top root).issues =
      (Manifest.checkScripts
        ((projectText? top root Manifest.fileName).map CodeString.ofChars)).toOption.getD [] := by
  have hwalk : ∀ i ∈ (((walk .security config).files top root).flatMap fun p =>
      findings .security config p.text (walkedBytes? top root p)),
      i.rule ≠ CodeString.ofString "piped_download_script" := by
    intro i hi
    obtain ⟨p, _, hi⟩ := List.mem_flatMap.mp hi
    have hrule : (Manifest.pipedDownload "").RuleIn projectRuleNames :=
      ⟨"piped_download_script", by decide, rfl⟩
    exact rule_ne_of_mem_findings hi hrule
  have hproject : ∀ i ∈ projectFindings .security config top root,
      i.rule = CodeString.ofString "piped_download_script" := by
    intro i hi
    obtain ⟨name, rfl⟩ := exists_of_mem_security hi
    rfl
  rw [← projectFindings_security, issues_scan, scriptIssues, List.filter_append,
    List.filter_eq_nil_iff.mpr fun i hi => by simpa using hwalk i hi,
    List.filter_eq_self.mpr fun i hi => decide_eq_true (hproject i hi), List.nil_append]

/-- **The scripts of a manifest.** Let the manifest at the root hold an object by the grammar. Either it
passes a limit of the reader, and no script is reported; or an object is read. Then the scripts reported are
those that are strings and pipe a download into a shell, one issue to each, in the order of their names,
which are all different, if all these names are texts; and none if one of them is not. -/
theorem scripts_of_scan (config : Config) (time : RunTime) {text : List Char}
    (htext : projectText? top root Manifest.fileName = some text)
    (hobject : Json.IsObjectText (CodeString.ofChars text)) :
    (∃ l, Json.read (CodeString.ofChars text) = .error (.limit l) ∧
        Json.Exceeds Json.maxDepth l (CodeString.ofChars text) ∧
        scriptIssues (scan .security config time top root).issues = []) ∨
      ∃ ms, Json.read (CodeString.ofChars text) = .ok (.obj ms) ∧ (Manifest.pipedNames ms).Nodup ∧
        ((∃ names : List String, Manifest.pipedNames ms = names.map CodeString.ofString ∧
            scriptIssues (scan .security config time top root).issues =
              names.map Manifest.pipedDownload) ∨
          (∃ name ∈ Manifest.pipedNames ms, ¬name.IsText) ∧
            scriptIssues (scan .security config time top root).issues = []) := by
  rw [scriptIssues_scan, htext, Option.map_some]
  rcases Json.read_of_isObjectText hobject with ⟨ms, hms⟩ | ⟨l, hl⟩
  · right
    refine ⟨ms, hms, Manifest.nodup_pipedNames hms, ?_⟩
    rw [Manifest.checkScripts_of_read hms]
    cases h : Manifest.issuesAbout Manifest.pipedDownload (Manifest.pipedNames ms) with
    | ok found => exact Or.inl (Manifest.issuesAbout_eq_ok.mp h)
    | error e =>
      refine Or.inr ⟨?_, rfl⟩
      by_contra hall
      obtain ⟨found, hfound⟩ := Manifest.exists_issuesAbout_iff.mpr fun name hname =>
        not_not.mp fun hnot => hall ⟨name, hname, hnot⟩
      rw [h] at hfound
      cases hfound
  · left
    refine ⟨l, hl, Json.exceeds_of_read hl, ?_⟩
    rw [Manifest.checkScripts, Manifest.load, hl]
    rfl

/-! ## A script beside a long number -/

/-- A script that pipes a download into a shell, and a number of so many nines. -/
def ninesText (n : Nat) : List Char := Json.numbered "curl x|sh" (List.replicate n '9')

theorem length_ninesText (n : Nat) : (ninesText n).length = n + 34 := by
  simp [ninesText, Json.numbered, Json.quoted]

theorem isOneByte_ninesText (n : Nat) : (ninesText n).all Text.isOneByte = true := by
  have hsplit : ninesText n = (ninesText 0).dropLast ++ (List.replicate n '9' ++ ['\x7d']) := rfl
  have hbefore : (ninesText 0).dropLast.all Text.isOneByte = true := by decide
  rw [hsplit, List.all_append, List.all_append, hbefore, List.all_replicate]
  split <;> decide

theorem isObjectText_ninesText (n : Nat) :
    Json.IsObjectText (CodeString.ofChars (ninesText (n + 1))) :=
  Json.isObjectText_numbered (by decide) (Json.isNumber_nines n)

/-- The reader meets its limit in a number of one digit too many. -/
theorem read_ninesText :
    ∃ l, Json.read (CodeString.ofChars (ninesText (IntegerText.maxDigits + 1))) = .error (.limit l) := by
  have hlimit : (match Json.read (CodeString.ofChars (ninesText (IntegerText.maxDigits + 1))) with
      | .error (.limit _) => true
      | _ => false) = true := by
    decide +kernel
  split at hlimit
  · next l h => exact ⟨l, h⟩
  · cases hlimit

/-- A file of that text. -/
def ninesFile (n : Nat) (h : n + 34 < Nat.pow 2 63) : FileBytes where
  bytes := Text.asciiBytes (ninesText n)
  size_lt := by rwa [Text.size_asciiBytes, length_ninesText]

/-- The file with one digit. -/
def brief : FileBytes := ninesFile 1 (by decide)

/-- The file with one digit too many. -/
def overlong : FileBytes := ninesFile (IntegerText.maxDigits + 1) (by decide)

/-- A project of such a manifest alone. -/
def manifestOnly (manifest : FileBytes) : Node := .dir true [("package.json", .file (.open manifest))]

theorem projectText?_manifestOnly (n : Nat) (h : n + 34 < Nat.pow 2 63) :
    projectText? (manifestOnly (ninesFile n h)) .top Manifest.fileName = some (ninesText n) := by
  have hfile : contentAt? (manifestOnly (ninesFile n h)) .top [Manifest.fileName] =
      some (.open (ninesFile n h)) := contentAt?_file (by decide) rfl
  exact projectText?_of_ascii hfile rfl (isOneByte_ninesText n)

/-- Beside a number of one digit the script is reported. -/
theorem scripts_of_scan_brief :
    projectText? (manifestOnly brief) .top Manifest.fileName = some (ninesText 1) ∧
      Json.IsObjectText (CodeString.ofChars (ninesText 1)) ∧
      scriptIssues (scan .security {} ⟨"", 0⟩ (manifestOnly brief) .top).issues =
        [Manifest.pipedDownload "i"] := by
  have htext : projectText? (manifestOnly brief) .top Manifest.fileName = some (ninesText 1) :=
    projectText?_manifestOnly 1 _
  refine ⟨htext, isObjectText_ninesText 0, ?_⟩
  have hread : (Manifest.load (some (CodeString.ofChars (ninesText 1)))).toOption.map
      (Option.map Manifest.pipedNames) = some (some [CodeString.ofString "i"]) := by
    decide +kernel
  rcases scripts_of_scan {} ⟨"", 0⟩ htext (isObjectText_ninesText 0) with ⟨l, hl, _⟩ | ⟨ms, hms, _, hfound⟩
  · rw [Manifest.load, hl] at hread
    cases hread
  · rw [Manifest.load, hms] at hread
    have hpiped : Manifest.pipedNames ms = ["i"].map CodeString.ofString :=
      Option.some.inj (Option.some.inj hread)
    rcases hfound with ⟨names, hnames, hfound⟩ | ⟨⟨name, hname, hnot⟩, _⟩
    · rw [hpiped] at hnames
      rw [hfound, ← List.map_injective_iff.mpr (fun _ _ => CodeString.ofString_injective) hnames]
      rfl
    · rw [hpiped] at hname
      obtain ⟨t, _, rfl⟩ := List.mem_map.mp hname
      exact absurd ⟨t, rfl⟩ hnot

/-- Beside a number of one digit too many it is not, though the manifest is an object all the same. -/
theorem scripts_hidden_by_digits :
    projectText? (manifestOnly overlong) .top Manifest.fileName =
        some (ninesText (IntegerText.maxDigits + 1)) ∧
      Json.IsObjectText (CodeString.ofChars (ninesText (IntegerText.maxDigits + 1))) ∧
      Manifest.isPipedDownload (.str "curl x|sh") = true ∧
      scriptIssues (scan .security {} ⟨"", 0⟩ (manifestOnly overlong) .top).issues = [] := by
  have htext : projectText? (manifestOnly overlong) .top Manifest.fileName =
      some (ninesText (IntegerText.maxDigits + 1)) := projectText?_manifestOnly _ _
  refine ⟨htext, isObjectText_ninesText IntegerText.maxDigits, by decide +kernel, ?_⟩
  obtain ⟨l, hl⟩ := read_ninesText
  rw [scriptIssues_scan, htext, Option.map_some, Manifest.checkScripts, Manifest.load, hl]
  rfl

end SourceScan.Scan
