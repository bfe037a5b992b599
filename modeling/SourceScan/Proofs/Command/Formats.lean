import SourceScan.Proofs.Command.Ending
import SourceScan.Proofs.Scan.Form
import SourceScan.Proofs.Tree.Follow

/-!
# The two formats

A request asks for a result as JSON or as a report, and nothing else in it depends on the format
(`Command.Asks.setFormat`). The JSON holds all that the result is: it is read back as the same result, and so
a report on what was read back is the report that the command prints itself if it is asked for one
(`result_read_back`). A report does not say when the run was, but it says how long it took, so the two runs
have to have taken equally long.

The JSON is the value that is printed; that its text is read as this value is left to the reader and the
writer.
-/

namespace SourceScan

namespace Json

/-- The members with one of them set: in its place if there is one of that name, and after the others if
there is none. -/
def setMember : Members → String → Json → Members
  | [], name, v => [(CodeString.ofString name, v)]
  | m :: ms, name, v =>
    if m.1 = CodeString.ofString name then (m.1, v) :: ms else m :: setMember ms name v

theorem member?_setMember (ms : Members) (name other : String) (v : Json) :
    member? (setMember ms name v) other = if other = name then some v else member? ms other := by
  induction ms with
  | nil => simp only [setMember, member?_cons, CodeString.ofString_inj]
  | cons m ms ih =>
    obtain ⟨key, w⟩ := m
    rw [setMember]
    by_cases hkey : key = CodeString.ofString name
    · rw [if_pos hkey]
      simp only [member?_cons, hkey, CodeString.ofString_inj]
      split <;> rfl
    · rw [if_neg hkey, member?_cons, member?_cons, ih]
      by_cases hother : other = name
      · rw [hother, if_neg (Ne.symm hkey), if_pos rfl, if_pos rfl]
      · rw [if_neg hother, if_neg hother]

end Json

/-- The value that is printed as JSON, if one is. -/
def Printed.json? : Printed → Option Json
  | result r => some r.toJson
  | report _ => none
  | refusal r => some r.toJson

theorem Printed.text_of_json? {p : Printed} {j : Json} (h : p.json? = some j) :
    p.text = CodeString.ofString j.render ++ CodeString.ofString "\n" := by
  cases p with
  | report t => cases h
  | _ =>
    cases h
    rfl

namespace Command

variable {ms : Members} {command : Command}

/-- A request that is changed in its format only asks for the same in that format. -/
theorem Asks.setFormat (h : Asks ms command) (f : OutputFormat) :
    Asks (Json.setMember ms "format" (.text f.name)) { command with format := f } where
  directory := by
    rw [directoryValue?, Json.member?_setMember, Json.member?_setMember, if_neg (by decide), if_neg (by decide)]
    exact h.directory
  analyzer := by
    rw [analyzerValue, Json.member?_setMember, if_neg (by decide)]
    exact h.analyzer
  format := by
    rw [formatValue, Json.member?_setMember, if_pos rfl, Option.getD_some]
  options := by
    rw [Json.member?_setMember, if_neg (by decide)]
    exact h.options

end Command

/-- A report says how long the run took, but not when it was. -/
theorem Report.text_scan {a : Analyzer} {config : Config} {time time' : RunTime} {top : Node} {root : Door}
    (h : time'.milliseconds = time.milliseconds) (shown : Int) :
    text shown (scan a config time' top root) = text shown (scan a config time top root) := by
  have hresult : scan a config time' top root =
      { scan a config time top root with timestamp := time'.startedAt } := by
    simp only [scan, ScanResult.ofIssues, h]
  rw [hresult]
  rfl

/-- **What is printed as JSON is read back.** A result that was read is read again from the value that it is
written as. If the command is successful and prints a value as JSON, on a line of its own, that value is read
as a result, and the command prints the report on it, with a line end, for the same request with the format
set to text. -/
theorem result_read_back :
    (∀ v r, ScanResult.ofJson v = .ok r → ScanResult.ofJson r.toJson = .ok r) ∧
      ∀ text text' ms, Json.read text = .ok (.obj ms) →
        Json.read text' = .ok (.obj (Json.setMember ms "format" (.text "text"))) →
        ∀ time time' : RunTime, time'.milliseconds = time.milliseconds →
          ∀ top p j, Command.run text time top = .ok p → p.exitCode = 0 → p.json? = some j →
            p.text = CodeString.ofString j.render ++ CodeString.ofString "\n" ∧
              ∃ r p', ScanResult.ofJson j = .ok r ∧ Command.run text' time' top = .ok p' ∧ p'.exitCode = 0 ∧
                p'.text = Report.text Report.standardShown r ++ CodeString.ofString "\n" := by
  refine ⟨fun v r => ScanResult.ofJson_toJson, ?_⟩
  intro text text' ms hread hread' time time' htime top p j hrun hexit hj
  obtain ⟨command, root, ⟨ms₁, readable, entries, hread₁, hasks, hnamed⟩, rfl⟩ :=
    Command.run_successful_iff_orders.mp ⟨hrun, hexit⟩
  rw [hread] at hread₁
  cases hread₁
  -- The command that the changed request asks for differs from the first in its format only.
  have horders : Command.Orders text' top { command with format := .text } root :=
    ⟨_, readable, entries, hread', hasks.setFormat .text, hnamed⟩
  obtain ⟨hrun', hexit'⟩ := Command.run_successful_iff_orders.mpr ⟨_, root, horders, rfl⟩
  refine ⟨Printed.text_of_json? hj, scan command.analyzer command.config time top root, _, ?_, hrun', hexit', ?_⟩
  · rw [Command.print] at hj
    split at hj
    · cases hj
      exact ScanResult.ofJson_toJson_scan ..
    · cases hj
  · rw [Command.text_print, OutputFormat.written, Report.text_scan htime]

/-- A result with one issue in which the numbers are written in other ways than as numbers. -/
def looseResult : Json :=
  .object [("analyzer", .text "security"), ("timestamp", .text ""), ("files_scanned", .text " 1 "),
    ("issues", .arr [.object [("category", .text "xss"), ("severity", .text "high"), ("file", .text "a.js"),
      ("line", .bool true), ("message", .text "Found"), ("suggestion", .text "Mend")]])]

/-- What is read from it. -/
def looseRead : ScanResult where
  analyzer := .security
  timestamp := ""
  filesScanned := 1
  issues := [{
    category := .security .xss
    severity := .high
    file := "a.js"
    line := some 1
    message := "Found"
    suggestion := "Mend" }]

theorem ofJson_looseResult : ScanResult.ofJson looseResult = .ok looseRead := by with_unfolding_all rfl

/-- A request for the scan of the top directory. -/
def topRequest : Members := [(CodeString.ofString "path", .text ".")]

/-- The same request for a report. -/
def topReportRequest : Members := topRequest ++ [(CodeString.ofString "format", .text "text")]

theorem setMember_topRequest : Json.setMember topRequest "format" (.text "text") = topReportRequest := rfl

theorem read_topRequest :
    Json.read (CodeString.ofString (Json.obj topRequest).render) = .ok (.obj topRequest) := by with_unfolding_all rfl

theorem read_topReportRequest :
    Json.read (CodeString.ofString (Json.obj topReportRequest).render) =
      .ok (.obj (Json.setMember topRequest "format" (.text "text"))) := by
  rw [setMember_topRequest]
  with_unfolding_all rfl

/-- The result that is written loosely is read back, and so is that of a scan of a directory that holds
nothing. -/
theorem result_read_back_loose :
    (∃ r, ScanResult.ofJson looseResult = .ok r ∧ ScanResult.ofJson r.toJson = .ok r) ∧
      ∃ p j r p', Command.run (CodeString.ofString (Json.obj topRequest).render) ⟨"", 0⟩ (.dir true []) = .ok p ∧
        p.exitCode = 0 ∧ p.json? = some j ∧ ScanResult.ofJson j = .ok r ∧
        Command.run (CodeString.ofString (Json.obj topReportRequest).render) ⟨"later", 0⟩ (.dir true []) =
          .ok p' ∧
        p'.text = Report.text Report.standardShown r ++ CodeString.ofString "\n" := by
  have hasks : Command.Asks topRequest ⟨".", .security, .json, {}⟩ := ⟨rfl, rfl, rfl, rfl⟩
  have hnamed := Node.named_here true []
  obtain ⟨hrun, hexit⟩ := Command.run_successful_iff_orders.mpr
    ⟨_, .top, ⟨_, true, [], read_topRequest, hasks, hnamed⟩, rfl⟩
  obtain ⟨hback, hreport⟩ := result_read_back
  obtain ⟨_, r, p', hr, hp', _, htext⟩ :=
    hreport _ _ _ read_topRequest read_topReportRequest ⟨"", 0⟩ ⟨"later", 0⟩ rfl (.dir true []) _ _ hrun hexit rfl
  exact ⟨⟨_, ofJson_looseResult, hback _ _ ofJson_looseResult⟩, _, _, r, p', hrun, hexit, rfl, hr, hp', htext⟩

end SourceScan
