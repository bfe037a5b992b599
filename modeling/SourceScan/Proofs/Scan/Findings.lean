import SourceScan.Proofs.Except
import SourceScan.Proofs.Function.Bounds
import SourceScan.Proofs.Issue.Form
import SourceScan.Proofs.Number.Finite
import SourceScan.Scan

/-!
# What the checks of a file find

For each check what its findings are, and that they keep the rules of issues (`Issue.Kept`): a line from 1,
and a message and a suggestion that are not empty. So nothing is lost when they are looked over (`vetAll`), and
the check of a file always ends with its findings (`pathIssues_eq_ok`), whatever the file holds: the size
of a file is never too large to be divided.
-/

namespace SourceScan

/-- Every rule says something, and what to do about it. -/
theorem Catalog.texts_ne_empty (a : Analyzer) :
    ∀ r ∈ a.catalog.rules, r.message ≠ "" ∧ r.suggestion ≠ "" := by
  have hall : a.catalog.rules.all (fun r => r.message != "" && r.suggestion != "") = true := by
    cases a <;> decide +kernel
  intro r hr
  have hrule := List.all_eq_true.mp hall r hr
  rw [Bool.and_eq_true, bne_iff_ne, bne_iff_ne] at hrule
  exact hrule

/-! ## Findings on lines -/

/-- The issues of a text are those of the rules for the file's extension, on the lines on which their
patterns are found and that are not commented out for them. -/
theorem mem_scanLines {c : Catalog} {file : CodeString} {text : List Char} {i : Issue} :
    i ∈ scanLines c file text ↔
      ∃ r ∈ c.rules, ∃ k line, (Text.lines text)[k]? = some line ∧
        r.appliesTo (FileName.suffix file).lower = true ∧
        ¬(r.skipComments = true ∧ isCommentedOut (Text.dropReturn line) = true) ∧
        r.matchesLine (Text.dropReturn line).toArray = true ∧ i = r.issue file (k + 1) := by
  simp only [scanLines, lineIssues, Catalog.forExtension, List.mem_flatMap, List.mem_map,
    List.mem_filter, Bool.and_eq_true, Bool.not_eq_true', Bool.and_eq_false_imp, Prod.exists,
    List.mem_zipIdx_iff_getElem?]
  constructor
  · intro hfound
    obtain ⟨line, k, hline, r, ⟨⟨hr, happlies⟩, hskip, hmatches⟩, rfl⟩ := hfound
    refine ⟨r, hr, k, line, hline, happlies, fun hboth => ?_, hmatches, rfl⟩
    rw [hskip hboth.1] at hboth
    exact Bool.false_ne_true hboth.2
  · intro hfound
    obtain ⟨r, hr, k, line, hline, happlies, hskip, hmatches, rfl⟩ := hfound
    refine ⟨line, k, hline, r, ⟨⟨hr, happlies⟩, fun hs => ?_, hmatches⟩, rfl⟩
    exact Bool.eq_false_iff.mpr fun hc => hskip ⟨hs, hc⟩

theorem kept_of_mem_scanLines {a : Analyzer} {file : CodeString} {text : List Char} {i : Issue}
    (h : i ∈ scanLines a.catalog file text) : i.Kept := by
  obtain ⟨r, hr, k, _, _, _, _, _, rfl⟩ := mem_scanLines.mp h
  obtain ⟨hmessage, hsuggestion⟩ := Catalog.texts_ne_empty a r hr
  exact ⟨fun hline => Nat.succ_ne_zero k (Option.some.inj hline), hmessage, hsuggestion⟩

/-! ## Findings on whole files -/

namespace FileCheck

variable {config : Config} {file : CodeString} {text : List Char} {i : Issue}

/-- What the complexity finds is about the whole file. -/
theorem of_mem_complexity (h : i ∈ complexity config file text) :
    i.file = file ∧ i.line = none ∧ i.Kept := by
  simp only [complexity] at h
  split at h
  · cases h
  · rw [List.mem_singleton] at h
    subst h
    exact ⟨rfl, rfl, by simp, by simp, by simp⟩

/-- What the lengths find are functions of the file. -/
theorem mem_functionLength :
    i ∈ functionLength config file text ↔
      ∃ language f, Language.ofFile? file = some language ∧ f ∈ FunctionSpan.ofText language text ∧
        config.functionLengthMedium < f.lines ∧ i = longFunction config file f := by
  rw [functionLength]
  cases Language.ofFile? file with
  | none => simp only [List.not_mem_nil, reduceCtorEq, false_and, exists_false]
  | some language =>
    simp only [List.mem_map, List.mem_filter, decide_eq_true_eq, Option.some.injEq, exists_and_left,
      exists_eq_left']
    constructor
    · intro hfound
      obtain ⟨f, ⟨hf, hlong⟩, rfl⟩ := hfound
      exact ⟨f, hf, hlong, rfl⟩
    · intro hfound
      obtain ⟨f, hf, hlong, rfl⟩ := hfound
      exact ⟨f, ⟨hf, hlong⟩, rfl⟩

theorem kept_of_mem_functionLength (h : i ∈ functionLength config file text) : i.Kept := by
  obtain ⟨language, f, _, hf, _, rfl⟩ := mem_functionLength.mp h
  have hstart := (FunctionSpan.mem_ofText_bounds hf).1
  refine ⟨fun hline => ?_, by simp [longFunction], by simp [longFunction]⟩
  rw [Option.some.inj hline] at hstart
  exact absurd hstart (Nat.not_succ_le_zero 0)

/-- The size of a file in units of 1024 bytes is a number. -/
theorem exists_kibibytes {size : Nat} (h : size < Nat.pow 2 63) :
    ∃ n, kibibytes? (size : Int) = some n := by
  have hlog : size.log2 ≤ 62 := by
    by_cases h0 : size = 0
    · rw [h0]
      decide
    · exact Nat.le_of_lt_succ ((Nat.log2_lt h0).mpr h)
  obtain ⟨m, e, hratio⟩ := Binary64.exists_ofRatio false size 1024 (by omega)
  have hneg : decide ((size : Int) < 0) = false := decide_eq_false (by omega)
  rw [kibibytes?, hneg, Int.natAbs_natCast, hratio]
  exact ⟨_, rfl⟩

/-- The check of the size of a file always has an answer, which is about the whole file. -/
theorem exists_fileSize (config : Config) (file : CodeString) {size : Nat} (h : size < Nat.pow 2 63) :
    ∃ found, fileSize config file size = .ok found ∧
      ∀ i ∈ found, i.file = file ∧ i.line = none ∧ i.Kept := by
  rw [fileSize]
  split
  · exact ⟨[], rfl, fun i hi => absurd hi List.not_mem_nil⟩
  · obtain ⟨n, hn⟩ := exists_kibibytes h
    rw [hn]
    refine ⟨_, rfl, fun i hi => ?_⟩
    rw [List.mem_singleton] at hi
    subst hi
    exact ⟨rfl, rfl, by simp, by simp, by simp⟩

end FileCheck

namespace Scan

variable {a : Analyzer} {config : Config} {file : CodeString} {found out : List Issue}

/-! ## The findings of a file together -/

theorem vetAll_eq_ok (h : ∀ i ∈ found, i.Kept) : vetAll found = .ok found := by
  induction found with
  | nil => rfl
  | cons i rest ih =>
    have hi : i.vet.mapError CheckError.invalid = .ok i := by
      rw [Issue.vet_eq_ok (h i List.mem_cons_self)]
      rfl
    exact mapM_cons_eq_ok.mpr ⟨i, rest, hi, ih fun j hj => h j (List.mem_cons_of_mem i hj), rfl⟩

/-- Findings that pass keep the rules, and nothing is changed where they are looked over. -/
theorem of_vetAll_eq_ok (h : vetAll found = .ok out) : (∀ i ∈ found, i.Kept) ∧ out = found := by
  induction found generalizing out with
  | nil =>
    cases h
    exact ⟨fun i hi => absurd hi List.not_mem_nil, rfl⟩
  | cons i rest ih =>
    obtain ⟨j, js, hi, hrest, rfl⟩ := mapM_cons_eq_ok.mp h
    obtain ⟨hkept, rfl⟩ := ih hrest
    cases hvet : i.vet with
    | error e =>
      rw [hvet] at hi
      cases hi
    | ok j' =>
      rw [hvet] at hi
      cases hi
      obtain ⟨hi, rfl⟩ := Issue.of_vet_eq_ok hvet
      exact ⟨List.forall_mem_cons.mpr ⟨hi, hkept⟩, rfl⟩

theorem kept_of_vetAll_eq_ok (h : vetAll found = .ok out) : ∀ i ∈ out, i.Kept := by
  obtain ⟨hkept, rfl⟩ := of_vetAll_eq_ok h
  exact hkept

/-- The findings on one file of the walk; none if it cannot be read. -/
def findings (a : Analyzer) (config : Config) (file : CodeString) : Option FileBytes → List Issue
  | none => []
  | some b =>
    let text := Text.ofBytes b.bytes
    if a.checksFiles then
      scanLines a.catalog file text ++ FileCheck.complexity config file text ++
        FileCheck.functionLength config file text ++
        (FileCheck.fileSize config file b.bytes.size).toOption.getD []
    else scanLines a.catalog file text

/-- The check of a file always ends with its findings. -/
theorem pathIssues_eq_ok (a : Analyzer) (config : Config) (file : CodeString)
    (bytes : Option FileBytes) : pathIssues a config file bytes = .ok (findings a config file bytes) := by
  cases bytes with
  | none => rfl
  | some b =>
    have hlines := vetAll_eq_ok fun i (hi : i ∈ scanLines a.catalog file (Text.ofBytes b.bytes)) =>
      kept_of_mem_scanLines hi
    refine bind_eq_ok.mpr ⟨_, hlines, ?_⟩
    rw [findings]
    split
    · have hscore := vetAll_eq_ok
        fun i (hi : i ∈ FileCheck.complexity config file (Text.ofBytes b.bytes)) =>
          (FileCheck.of_mem_complexity hi).2.2
      have hlong := vetAll_eq_ok
        fun i (hi : i ∈ FileCheck.functionLength config file (Text.ofBytes b.bytes)) =>
          FileCheck.kept_of_mem_functionLength hi
      obtain ⟨size, hsize, hkept⟩ := FileCheck.exists_fileSize config file b.size_lt
      have hvet := vetAll_eq_ok fun i hi => (hkept i hi).2.2
      rw [hsize]
      exact bind_eq_ok.mpr ⟨_, hscore, bind_eq_ok.mpr ⟨_, hlong, bind_eq_ok.mpr ⟨size, rfl,
        bind_eq_ok.mpr ⟨size, hvet, rfl⟩⟩⟩⟩
    · rfl

end Scan

end SourceScan
