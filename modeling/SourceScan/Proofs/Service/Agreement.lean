import SourceScan.Proofs.Command.Ending
import SourceScan.Proofs.Json.Checked
import SourceScan.Proofs.Scan.Thresholds
import SourceScan.Proofs.Text.CodeString
import SourceScan.Proofs.Tree.Follow
import SourceScan.Service

/-!
# The command and the service agree

A request that names a path, and an analyzer and options if it wants to, is taken by the command and by the
service alike (`service_agrees`). The two check it in different ways: the command looks at one part after
the other and takes options that are nothing for none, the service checks the body as a whole. But they take
the same analyzers (`nameOf_eq_ok_iff`) and the same options (`configOf_eq_ok_iff`), and look for the path in
the same way; so both answer with a result or neither does, and the results differ only in when the runs were
and how long they took.

The command prints a report if it is asked to, so what is said is about requests without a format; the
service does not look at one.
-/

namespace SourceScan

variable {ms : Members} {path text : CodeString} {time time' : RunTime} {top : Node}

/-- The result as of a run at another time. -/
def ScanResult.at (r : ScanResult) (time : RunTime) : ScanResult :=
  { r with timestamp := time.startedAt, durationMs := time.milliseconds }

theorem at_scan (a : Analyzer) (config : Config) (time time' : RunTime) (top : Node) (root : Door) :
    (scan a config time top root).at time' = scan a config time' top root := rfl

/-! ## When each of them is successful -/

/-- The service answers with a result if the body is in order and names a directory. -/
theorem Service.scan_ok_iff {body : Json} {r : ScanResult} :
    scan body time top = .ok (.ok r) ↔
      ∃ request root readable entries, ScanRequest.ofJson body = .ok request ∧
        top.named request.path = .ok (some (root, .dir readable entries)) ∧
        r = SourceScan.scan request.analyzer request.options time top root := by
  unfold scan
  constructor
  · intro h
    split at h
    · cases h
    · next request hrequest =>
      split at h
      · next reply hreply =>
        cases h
        unfold answer at hreply
        split at hreply
        · cases hreply
        · cases hreply
        · next root readable entries hnamed =>
          cases hreply
          exact ⟨request, root, readable, entries, hrequest, hnamed, rfl⟩
        · cases hreply
      · cases h
  · intro ⟨request, root, readable, entries, hrequest, hnamed, hr⟩
    subst hr
    simp only [hrequest, answer, hnamed]

/-! ## What each of them takes -/

namespace Json

/-- The members but those of a name. -/
def withoutMember (ms : Members) (name : String) : Members := ms.filter fun m => m.1 != CodeString.ofString name

theorem member?_withoutMember (ms : Members) (name other : String) :
    member? (withoutMember ms name) other = if other = name then none else member? ms other := by
  induction ms with
  | nil => exact (ite_self none).symm
  | cons m ms ih =>
    obtain ⟨key, v⟩ := m
    unfold withoutMember at ih ⊢
    by_cases hkey : key = CodeString.ofString name
    · rw [List.filter_cons_of_neg (by simpa using hkey), ih]
      simp only [member?_cons, hkey, CodeString.ofString_inj]
      split <;> rfl
    · rw [List.filter_cons_of_pos (by simpa using hkey), member?_cons, member?_cons, ih]
      by_cases hother : other = name
      · rw [hother, if_neg (Ne.symm hkey), if_pos rfl, if_pos rfl]
      · rw [if_neg hother, if_neg hother]

end Json

/-- A request that names a path, and is of the right kind where it asks for an analyzer or has options. -/
structure Request (ms : Members) (path : CodeString) : Prop where
  names : Json.member? ms "path" = some (.str path)
  ne_nil : path ≠ []
  analyzer : ∀ v, Json.member? ms "analyzer" = some v → ∃ s, v = .str s
  options : ∀ v, Json.member? ms "options" = some v → ∃ os, v = .obj os

/-- Both take the same analyzers. -/
theorem Command.nameOf_eq_ok_iff (h : Request ms path) {a : Analyzer} :
    nameOf Analyzer.ofName? .unknownAnalyzer ((Json.member? ms "analyzer").getD (.text "security")) = .ok a ↔
      Json.optional ms "analyzer" .security Analyzer.check = .ok a := by
  rw [Json.optional_eq_ok]
  cases hv : Json.member? ms "analyzer" with
  | none =>
    have hsecurity : nameOf Analyzer.ofName? .unknownAnalyzer (.text "security") = .ok .security := rfl
    rw [Option.getD_none, hsecurity]
    simp [eq_comm]
  | some v =>
    obtain ⟨s, rfl⟩ := h.analyzer v hv
    simp only [Option.getD_some, nameOf, Json.text?, Option.some.injEq, reduceCtorEq, false_and, false_or,
      exists_eq_left', Analyzer.check, Json.checkName_str_eq_ok]
    cases s.toString?.bind Analyzer.ofName? <;> simp

/-- Both take the same options; options that hold nothing are the standard ones. -/
theorem Command.configOf_eq_ok_iff (h : Request ms path) {c : Config} :
    configOf (Json.member? ms "options") = .ok c ↔
      Json.optional ms "options" {} Config.check = .ok c := by
  rw [Json.optional_eq_ok]
  cases hv : Json.member? ms "options" with
  | none => simp [configOf, eq_comm]
  | some v =>
    obtain ⟨os, rfl⟩ := h.options v hv
    cases os with
    | nil =>
      have hnothing : configOf (some (.obj [])) = .ok {} := rfl
      have hstandard : Config.check (.obj []) = .ok {} := rfl
      rw [hnothing]
      simp [hstandard, eq_comm]
    | cons o os =>
      have hsome : (some (Json.obj (o :: os))).filter Json.isSome = some (.obj (o :: os)) := rfl
      simp only [configOf, hsome, Option.some.injEq, reduceCtorEq, false_and, false_or, exists_eq_left',
        ← Checked.toExcept_eq_ok Config.form, Config.ofJson]
      cases (Config.check (.obj (o :: os))).toExcept Config.form <;> simp

/-- The command takes a request without a format if the analyzer and the options are in order. -/
theorem Command.read_eq_ok_iff (h : Request ms path)
    (hread : Json.read text = .ok (.obj (Json.withoutMember ms "format"))) {command : Command} :
    read text = .ok command ↔
      ∃ a c, Json.optional ms "analyzer" .security Analyzer.check = .ok a ∧
        Json.optional ms "options" {} Config.check = .ok c ∧ command = ⟨path, a, .json, c⟩ := by
  have hpath : pathValue (Json.withoutMember ms "format") = .ok (.str path) := by
    have hgiven : (some (Json.str path)).filter Json.isSome = some (.str path) := by
      simp [Option.filter, Json.isSome, h.ne_nil]
    simp only [pathValue, Json.member?_withoutMember, if_neg (show "path" ≠ "format" by decide), h.names, hgiven]
  have hformat : nameOf OutputFormat.ofName? .unknownFormat
      ((Json.member? (Json.withoutMember ms "format") "format").getD (.text "json")) = .ok .json := by
    rw [Json.member?_withoutMember, if_pos rfl]
    rfl
  have hanalyzer : Json.member? (Json.withoutMember ms "format") "analyzer" = Json.member? ms "analyzer" := by
    rw [Json.member?_withoutMember, if_neg (by decide)]
  have hoptions : Json.member? (Json.withoutMember ms "format") "options" = Json.member? ms "options" := by
    rw [Json.member?_withoutMember, if_neg (by decide)]
  simp only [read, hread, ofMembers, hpath, hanalyzer, hformat, hoptions, bind_eq_ok, nameOf_eq_ok_iff h,
    configOf_eq_ok_iff h]
  constructor
  · rintro ⟨v, hv, a, ha, f, hf, c, hc, p, hp, hcommand⟩
    cases hv
    cases hf
    cases hp
    cases hcommand
    exact ⟨a, c, ha, hc, rfl⟩
  · rintro ⟨a, c, ha, hc, hcommand⟩
    exact ⟨_, rfl, a, ha, _, rfl, c, hc, path, rfl, congrArg Except.ok hcommand.symm⟩

/-- The service takes a body if the analyzer and the options are in order. -/
theorem ScanRequest.ofJson_eq_ok_iff (h : Request ms path) {request : ScanRequest} :
    ofJson (.obj ms) = .ok request ↔
      ∃ a c, Json.optional ms "analyzer" .security Analyzer.check = .ok a ∧
        Json.optional ms "options" {} Config.check = .ok c ∧ request = ⟨path, a, c⟩ := by
  have hpath : Json.required ms "path" Json.checkString = .ok path :=
    Json.required_eq_ok.mpr ⟨_, h.names, rfl⟩
  simp only [ofJson, check, Json.checkObject, Checked.toExcept_eq_ok, Checked.seq_eq_ok, Checked.map_eq_ok, hpath]
  constructor
  · rintro ⟨_, c, ⟨_, a, ⟨p, hp, hmk⟩, ha, hgiven⟩, hc, hrequest⟩
    cases hp
    subst hmk hgiven hrequest
    exact ⟨a, c, ha, hc, rfl⟩
  · rintro ⟨a, c, ha, hc, hrequest⟩
    exact ⟨_, c, ⟨_, a, ⟨path, rfl, rfl⟩, ha, rfl⟩, hc, hrequest.symm⟩

/-! ## Agreement -/

theorem Service.status_eq_ok_iff {reply : Reply} : status reply = 200 ↔ ∃ r, reply = .ok r := by
  cases reply with
  | ok r => exact ⟨fun _ => ⟨r, rfl⟩, fun _ => rfl⟩
  | badRequest detail => exact ⟨nofun, nofun⟩

/-- What the service answers with, the command prints. -/
theorem Service.run_of_scan (h : Request ms path)
    (hread : Json.read text = .ok (.obj (Json.withoutMember ms "format"))) {r : ScanResult}
    (hr : scan (.obj ms) time top = .ok (.ok r)) :
    Command.run text time' top = .ok (.result (r.at time')) := by
  obtain ⟨request, root, readable, entries, hrequest, hnamed, hr⟩ := scan_ok_iff.mp hr
  obtain ⟨a, c, ha, hc, hbody⟩ := (ScanRequest.ofJson_eq_ok_iff h).mp hrequest
  subst hbody hr
  rw [at_scan]
  have hcommand := (Command.read_eq_ok_iff h hread).mpr ⟨a, c, ha, hc, rfl⟩
  exact (Command.run_successful_iff.mpr ⟨_, root, readable, entries, hcommand, hnamed, rfl⟩).1

/-- If the command is successful, the service answers, and the command has printed its answer. -/
theorem Service.scan_of_run (h : Request ms path)
    (hread : Json.read text = .ok (.obj (Json.withoutMember ms "format"))) {p : Printed}
    (hp : Command.run text time' top = .ok p) (hexit : p.exitCode = 0) :
    ∃ r, scan (.obj ms) time top = .ok (.ok r) ∧ p = .result (r.at time') := by
  obtain ⟨command, root, readable, entries, hcommand, hnamed, hp⟩ := Command.run_successful_iff.mp ⟨hp, hexit⟩
  obtain ⟨a, c, ha, hc, hbody⟩ := (Command.read_eq_ok_iff h hread).mp hcommand
  subst hbody hp
  have hrequest := (ScanRequest.ofJson_eq_ok_iff h).mpr ⟨a, c, ha, hc, rfl⟩
  refine ⟨_, scan_ok_iff.mpr ⟨_, root, readable, entries, hrequest, hnamed, rfl⟩, ?_⟩
  rw [at_scan]
  rfl

/-- **The command and the service agree.** On a request with a path that is not empty, with any string for an
analyzer or none, and with any object of options or none, the service answers with status 200 if and only if
the command, given the same request without a format, is successful and prints JSON. What it prints is the
result of the service, as of its own run. -/
theorem service_agrees (h : Request ms path)
    (hread : Json.read text = .ok (.obj (Json.withoutMember ms "format"))) (time time' : RunTime)
    (top : Node) :
    ((∃ reply, Service.scan (.obj ms) time top = .ok reply ∧ Service.status reply = 200) ↔
      ∃ p v, Command.run text time' top = .ok p ∧ p.exitCode = 0 ∧
        p.text = Json.render v ++ CodeString.ofString "\n") ∧
    ∀ r, Service.scan (.obj ms) time top = .ok (.ok r) →
      ∃ p, Command.run text time' top = .ok p ∧ p.exitCode = 0 ∧
        p.text = (r.at time').toJson.render ++ CodeString.ofString "\n" := by
  refine ⟨⟨?_, ?_⟩, ?_⟩
  · intro ⟨reply, hreply, hstatus⟩
    obtain ⟨r, rfl⟩ := Service.status_eq_ok_iff.mp hstatus
    exact ⟨_, (r.at time').toJson, Service.run_of_scan h hread hreply, rfl, rfl⟩
  · intro ⟨p, _, hp, hexit, _⟩
    obtain ⟨r, hr, _⟩ := Service.scan_of_run h hread hp hexit
    exact ⟨.ok r, hr, rfl⟩
  · intro r hr
    exact ⟨_, Service.run_of_scan h hread hr, rfl, rfl⟩

/-- A request for a report on the performance of the top directory, where a file of more than seven bytes is a large
one. -/
def reportRequest : Members :=
  [("path", .text "."), ("analyzer", .text "performance"), ("format", .text "text"),
    ("options", .object [("large_file_bytes", .int 7)])]

/-- The same request as a text, without the format. -/
def requestText : CodeString := (Json.obj (Json.withoutMember reportRequest "format")).render

theorem request_reportRequest : Request reportRequest "." where
  names := rfl
  ne_nil := nofun
  analyzer _ hv := ⟨_, (Option.some.inj hv).symm⟩
  options _ hv := ⟨_, (Option.some.inj hv).symm⟩

/-- The service finds the file of eight bytes large, which it is not by the standard options, and the command prints
its answer. -/
theorem service_agrees_largeFile :
    Request reportRequest "." ∧
      Json.read requestText = .ok (.obj (Json.withoutMember reportRequest "format")) ∧
      ∃ r, Service.scan (.obj reportRequest) ⟨"", 0⟩ Scan.branchingOnly = .ok (.ok r) ∧
        r.issues.map (·.rule) = [CodeString.ofString "large_file"] ∧
        (scan .performance {} ⟨"", 0⟩ Scan.branchingOnly .top).issues = [] ∧
        (∃ p v, Command.run requestText ⟨"later", 1⟩ Scan.branchingOnly = .ok p ∧ p.exitCode = 0 ∧
          p.text = Json.render v ++ CodeString.ofString "\n") ∧
        ∃ p, Command.run requestText ⟨"later", 1⟩ Scan.branchingOnly = .ok p ∧ p.exitCode = 0 ∧
          p.text = (r.at ⟨"later", 1⟩).toJson.render ++ CodeString.ofString "\n" := by
  have hread : Json.read requestText = .ok (.obj (Json.withoutMember reportRequest "format")) := by with_unfolding_all rfl
  have hrequest : ScanRequest.ofJson (.obj reportRequest) = .ok ⟨".", .performance, { largeFileBytes := 7 }⟩ := by
    with_unfolding_all rfl
  have hnamed : Scan.branchingOnly.named "." = .ok (some (.top, Scan.branchingOnly)) := Node.named_here ..
  have hscan : Service.scan (.obj reportRequest) ⟨"", 0⟩ Scan.branchingOnly =
      .ok (.ok (scan .performance { largeFileBytes := 7 } ⟨"", 0⟩ Scan.branchingOnly .top)) :=
    Service.scan_ok_iff.mpr ⟨_, _, _, _, hrequest, hnamed, rfl⟩
  obtain ⟨hiff, hprints⟩ :=
    service_agrees request_reportRequest hread ⟨"", 0⟩ ⟨"later", 1⟩ Scan.branchingOnly
  refine ⟨request_reportRequest, hread, _, hscan, ?_, ?_, hiff.mp ⟨_, hscan, rfl⟩, hprints _ hscan⟩
  · rw [Scan.issues_branchingOnly { largeFileBytes := 7 } rfl]
    decide +kernel
  · rw [Scan.issues_branchingOnly {} rfl]
    decide +kernel

end SourceScan
