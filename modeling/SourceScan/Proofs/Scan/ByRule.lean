import SourceScan.Proofs.Scan.Unique

/-!
# The findings of a file by their rule

The checks of a file have rules of their own, so the findings of a rule are those of its check. Only the check of
the size looks at the bytes of a file; `textFindings` is what the others find, in its text.
-/

namespace SourceScan

section Lists

variable {l : List Issue} {i : Issue} {name : String} {names : List String}

theorem Issue.RuleIn.eq (h : i.RuleIn [name]) : i.rule = CodeString.ofString name := by
  obtain ⟨other, hother, hrule⟩ := h
  rw [hrule, List.mem_singleton.mp hother]

theorem Issue.RuleIn.ne (h : i.RuleIn names) (hname : name ∉ names) : i.rule ≠ CodeString.ofString name := by
  obtain ⟨other, hother, hrule⟩ := h
  intro heq
  rw [hrule] at heq
  exact hname (CodeString.ofString_injective heq ▸ hother)

theorem filter_rule_eq_self (h : ∀ i ∈ l, i.RuleIn [name]) :
    l.filter (fun i => i.rule == CodeString.ofString name) = l :=
  List.filter_eq_self.mpr fun i hi => beq_iff_eq.mpr (h i hi).eq

theorem filter_rule_eq_nil (h : ∀ i ∈ l, i.RuleIn names) (hname : name ∉ names) :
    l.filter (fun i => i.rule == CodeString.ofString name) = [] :=
  List.filter_eq_nil_iff.mpr fun i hi heq => (h i hi).ne hname (beq_iff_eq.mp heq)

end Lists

namespace Scan

variable {config : Config} {file : CodeString} {i : Issue}

/-- What an analyzer finds in the text of a file. -/
def textFindings (a : Analyzer) (config : Config) (file : CodeString) (text : List Char) : List Issue :=
  if a.checksFiles then
    scanLines a.catalog file text ++ FileCheck.complexity config file text ++
      FileCheck.functionLength config file text
  else scanLines a.catalog file text

/-- What an analyzer finds in the number of bytes of a file. -/
def sizeFindings (a : Analyzer) (config : Config) (file : CodeString) (size : Nat) : List Issue :=
  if a.checksFiles then (FileCheck.fileSize config file size).toOption.getD [] else []

theorem findings_eq (a : Analyzer) (config : Config) (file : CodeString) (b : FileBytes) :
    findings a config file (some b) =
      textFindings a config file (Text.ofBytes b.bytes) ++ sizeFindings a config file b.bytes.size := by
  simp only [findings, textFindings, sizeFindings]
  split
  · rfl
  · rw [List.append_nil]

/-- No rule of a catalog is that of a check of whole files. -/
theorem not_mem_catalog {a : Analyzer} {name : String} (h : name ∈ FileCheck.ruleNames) :
    name ∉ a.catalog.rules.map Rule.name :=
  fun hmem => List.disjoint_of_nodup_append (List.nodup_append.mp (nodup_ruleNames a)).1 hmem h

/-- Of the rules of a file only that of the size looks at its bytes. -/
theorem rule_of_mem_sizeFindings {a : Analyzer} {size : Nat} (h : i ∈ sizeFindings a config file size) :
    i.RuleIn ["large_file"] := by
  simp only [sizeFindings] at h
  split at h
  · exact (atMostOne_fileSize config file size).ruleIn h
  · cases h

theorem rule_of_mem_textFindings {a : Analyzer} {text : List Char} (h : i ∈ textFindings a config file text) :
    i.rule ≠ CodeString.ofString "large_file" := by
  have hlines : ∀ i ∈ scanLines a.catalog file text, i.rule ≠ CodeString.ofString "large_file" :=
    fun i hi => (ruleIn_of_mem_scanLines hi).ne (not_mem_catalog (by decide))
  simp only [textFindings] at h
  split at h
  · simp only [List.mem_append] at h
    rcases h with (hrule | hscore) | hlong
    · exact hlines i hrule
    · exact ((atMostOne_complexity _ _ _).ruleIn hscore).ne (by decide)
    · exact (ruleIn_of_mem_functionLength hlong).ne (by decide)
  · exact hlines i h

/-- The findings on long functions are those of the check of the lengths. -/
theorem filter_function_length (config : Config) (file : CodeString) (b : FileBytes) :
    (findings .performance config file (some b)).filter (fun i => i.rule == CodeString.ofString "function_length") =
      FileCheck.functionLength config file (Text.ofBytes b.bytes) := by
  have hcatalog : "function_length" ∉ Analyzer.performance.catalog.rules.map Rule.name :=
    not_mem_catalog (by decide)
  rw [findings_eq, textFindings, if_pos (show Analyzer.performance.checksFiles = true from rfl),
    List.filter_append, List.filter_append, List.filter_append,
    filter_rule_eq_nil (fun _ => ruleIn_of_mem_scanLines) hcatalog,
    filter_rule_eq_nil (fun _ => (atMostOne_complexity _ _ _).ruleIn) (by decide),
    filter_rule_eq_self fun _ => ruleIn_of_mem_functionLength,
    filter_rule_eq_nil (fun _ => rule_of_mem_sizeFindings) (by decide), List.append_nil, List.nil_append,
    List.nil_append]

end Scan

end SourceScan
