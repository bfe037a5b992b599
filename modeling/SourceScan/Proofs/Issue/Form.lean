import SourceScan.Issue.Json
import SourceScan.Proofs.Json.Checked

/-!
# The form of issues

The rules of the form are few: a line that is given is at least 1, and message and suggestion are not empty
(`Issue.Kept`). An issue that keeps them passes when it is looked over, and only such an issue does
(`vet_eq_ok`, `of_vet_eq_ok`). The same holds of reading: what is read keeps them (`kept_of_check`), and
an issue that keeps them is read again from the object that it is written as (`check_toJson`).

Reading is lenient, so an object that an issue was read from need not be the one that it is written as.
-/

namespace SourceScan

theorem Severity.check_name (s : Severity) : check (.text s.name) = .ok s :=
  Json.checkName_text (ofName?_name s)

/-- A name is that of one category, of whichever kind, so both ways to read it agree. -/
theorem Category.check_name (c : Category) : check (.text c.name) = .ok c := by
  have hnamed (fault : Fault) (kind : String) :
      (Json.checkName fault ofName? (.text c.name)).under (.member kind) = .ok c :=
    Checked.under_eq_ok.mpr (Json.checkName_text (ofName?_name c))
  simp only [check, hnamed]

namespace Issue

variable {i : Issue} {v : Json} {ms : Members} {line : Option Nat}

/-- An issue keeps the rules of the form. -/
def Kept (i : Issue) : Prop := i.line ≠ some 0 ∧ i.message ≠ "" ∧ i.suggestion ≠ ""

/-! ## Looking over -/

theorem vet_eq_ok (h : i.Kept) : i.vet = .ok i := by
  obtain ⟨hline, hmessage, hsuggestion⟩ := h
  have hproblems : i.problems = [] := by
    rw [problems, if_neg (by simpa using hline), if_neg (by simpa using hmessage),
      if_neg (by simpa using hsuggestion)]
    rfl
  rw [vet, hproblems]

/-- An issue that passes keeps the rules, and nothing is changed where it is looked over. -/
theorem of_vet_eq_ok {j : Issue} (h : i.vet = .ok j) : i.Kept ∧ j = i := by
  rw [vet] at h
  split at h
  · next hproblems =>
    cases h
    rw [problems, List.append_eq_nil_iff, List.append_eq_nil_iff] at hproblems
    obtain ⟨⟨hline, hmessage⟩, hsuggestion⟩ := hproblems
    refine ⟨⟨fun h0 => ?_, fun h0 => ?_, fun h0 => ?_⟩, rfl⟩
    · simp [h0] at hline
    · simp [h0] at hmessage
    · simp [h0] at hsuggestion
  · cases h

/-! ## Reading and writing -/

theorem ne_zero_of_checkLine (h : checkLine v = .ok line) : line ≠ some 0 := by
  rcases Json.checkOption_eq_ok.mp h with ⟨_, rfl⟩ | ⟨_, n, hn, rfl⟩
  · exact nofun
  · obtain ⟨m, hm, rfl⟩ := Checked.map_eq_ok.mp hn
    have hleast := (Json.checkIntFrom_eq_ok.mp hm).2
    rw [Ne, Option.some.injEq]
    omega

theorem checkLine_ofNat? (h : line ≠ some 0) : checkLine (.ofNat? line) = .ok line := by
  cases line with
  | none => rfl
  | some n =>
    have hleast : (1 : Int) ≤ n := by
      have hn : n ≠ 0 := fun h0 => h (congrArg some h0)
      omega
    have hint : Json.checkIntFrom 1 (.int n) = .ok (n : Int) := Json.checkIntFrom_eq_ok.mpr ⟨rfl, hleast⟩
    exact Json.checkOption_eq_ok.mpr
      (.inr ⟨nofun, n, Checked.map_eq_ok.mpr ⟨n, hint, Int.toNat_natCast n⟩, rfl⟩)

theorem checkOption_ofString? (s : Option CodeString) :
    Json.checkOption Json.checkString (.ofString? s) = .ok s := by
  cases s <;> rfl

/-- The members of an object give the parts of an issue. -/
structure ReadFrom (i : Issue) (ms : Members) : Prop where
  category : Json.required ms "category" Category.check = .ok i.category
  severity : Json.required ms "severity" Severity.check = .ok i.severity
  file : Json.required ms "file" Json.checkString = .ok i.file
  line : Json.optional ms "line" none checkLine = .ok i.line
  message : Json.required ms "message" Json.checkSentence = .ok i.message
  description : Json.optional ms "description" [] Json.checkString = .ok i.description
  suggestion : Json.required ms "suggestion" Json.checkSentence = .ok i.suggestion
  rule : Json.optional ms "rule" [] Json.checkString = .ok i.rule
  impact : Json.optional ms "estimated_impact" none (Json.checkOption Json.checkString) = .ok i.impact

theorem check_obj_eq_ok : check (.obj ms) = .ok i ↔ i.ReadFrom ms := by
  have hread : check (.obj ms) = .ok i ↔ ∃ j, check (.obj ms) = .ok j ∧ j = i := by simp
  rw [hread]
  simp only [check, Json.checkObject, Checked.exists_seq_eq_ok, Checked.exists_map_eq_ok]
  constructor
  · rintro ⟨_, himpact, _, hrule, _, hsuggestion, _, hdescription, _, hmessage, _, hline, _, hfile, _, hseverity,
      _, hcategory, rfl⟩
    exact ⟨hcategory, hseverity, hfile, hline, hmessage, hdescription, hsuggestion, hrule, himpact⟩
  · intro h
    exact ⟨_, h.impact, _, h.rule, _, h.suggestion, _, h.description, _, h.message, _, h.line, _, h.file,
      _, h.severity, _, h.category, rfl⟩

theorem ReadFrom.kept (h : i.ReadFrom ms) : i.Kept := by
  refine ⟨?_, ?_, ?_⟩
  · rcases Json.optional_eq_ok.mp h.line with ⟨_, hnone⟩ | ⟨v, _, hv⟩
    · rw [hnone]
      exact nofun
    · exact ne_zero_of_checkLine hv
  · obtain ⟨v, _, hv⟩ := Json.required_eq_ok.mp h.message
    exact (Json.checkSentence_eq_ok.mp hv).2
  · obtain ⟨v, _, hv⟩ := Json.required_eq_ok.mp h.suggestion
    exact (Json.checkSentence_eq_ok.mp hv).2

/-- An issue that is read keeps the rules. -/
theorem kept_of_check (h : check v = .ok i) : i.Kept := by
  cases v with
  | obj ms => exact (check_obj_eq_ok.mp h).kept
  | _ => cases h

/-- An issue that keeps the rules is read from what is written of it. -/
theorem check_toJson (h : i.Kept) : check i.toJson = .ok i := by
  obtain ⟨hline, hmessage, hsuggestion⟩ := h
  refine check_obj_eq_ok.mpr
    { category := Json.required_of_member rfl (Category.check_name i.category)
      severity := Json.required_of_member rfl (Severity.check_name i.severity)
      file := Json.required_of_member rfl rfl
      line := Json.optional_of_member rfl (checkLine_ofNat? hline)
      message := Json.required_of_member rfl (Json.checkSentence_eq_ok.mpr ⟨rfl, hmessage⟩)
      description := Json.optional_of_member rfl rfl
      suggestion := Json.required_of_member rfl (Json.checkSentence_eq_ok.mpr ⟨rfl, hsuggestion⟩)
      rule := Json.optional_of_member rfl rfl
      impact := Json.optional_of_member rfl (checkOption_ofString? i.impact) }

end Issue

end SourceScan
