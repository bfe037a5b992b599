import SourceScan.Proofs.Command.Request

/-!
# How the command ends

The command is meant to end in one of two ways: it scans and prints one result, or it prints one object that
says what is wrong with the request. That is so unless an error gets past it (`run_ends`), and then it prints
nothing. Five things let an error past (`Escapes`): a text that is JSON and passes a limit of the reader, a
list or an object for the name of the analyzer, one for the name of the format, a value that is something and
no string for the path, and a path that no file system takes or that leads round and round. In each case the
request is one that should be refused, and its siblings are: a text that is no JSON, any other value for an
analyzer or a format, a string that leads to no directory (`run_list_for_analyzer` is the simplest of them).

What is printed is a string. Whether the place it is printed to takes a string that is no text is not
described here.
-/

namespace SourceScan

theorem Stop.printed_eq_error {s : Stop} {e : CommandError} : s.printed = .error e ↔ s = .failed e := by
  cases s <;> simp [printed]

/-- A result in a format: as JSON on one line, or as a report. -/
def OutputFormat.written (f : OutputFormat) (r : ScanResult) : CodeString :=
  match f with
  | json => CodeString.ofString r.toJson.render
  | text => Report.text Report.standardShown r

namespace Command

variable {text : CodeString} {time : RunTime} {top : Node} {root : Door} {command : Command}
  {e : CommandError} {p : Printed}

/-! ## What gets past the command -/

/-- An error that gets past the command: that of a limit of the reader, that of a part of the request, or
that of the path that it names. -/
inductive Escapes (text : CodeString) (top : Node) : CommandError → Prop
  | limit {l : Json.Limit} (h : Json.read text = .error (.limit l)) : Escapes text top (.limit l)
  | part {ms : Members} {e : CommandError} (hread : Json.read text = .ok (.obj ms)) (h : Fails ms e) :
    Escapes text top e
  | path {ms : Members} {command : Command} {e : PathError} (hread : Json.read text = .ok (.obj ms))
    (hasks : Asks ms command) (h : top.named command.path = .error e) : Escapes text top (.path e)

/-- A text is taken as a command if it is that of an object that asks for it. -/
theorem read_eq_ok_iff_asks :
    read text = .ok command ↔ ∃ ms, Json.read text = .ok (.obj ms) ∧ Asks ms command := by
  rw [read]
  split
  · next ms hread => simp [hread, ofMembers_eq_ok_iff]
  · next v hnot hread =>
    simp only [hread, reduceCtorEq, false_iff, not_exists, not_and, Except.ok.injEq]
    intro ms hms
    exact absurd hms (hnot ms)
  · next hread => simp [hread]
  · next hread => simp [hread]

theorem read_eq_failed_iff :
    read text = .error (.failed e) ↔
      (∃ l, Json.read text = .error (.limit l) ∧ e = .limit l) ∨
        ∃ ms, Json.read text = .ok (.obj ms) ∧ Fails ms e := by
  rw [read]
  split
  · next ms hread => simp [hread, ofMembers_eq_failed_iff]
  · next v hnot hread =>
    simp only [hread, reduceCtorEq, Except.error.injEq, false_and, exists_false, false_or, false_iff,
      not_exists, not_and, Except.ok.injEq]
    intro ms hms
    exact absurd hms (hnot ms)
  · next hread => simp [hread]
  · next hread => simp [hread, eq_comm]

theorem answer_eq_failed_iff :
    command.answer time top = .error (.failed e) ↔
      ∃ pathError, top.named command.path = .error pathError ∧ e = .path pathError := by
  rw [answer]
  split
  · next hnamed => simp [hnamed, eq_comm]
  · next hnamed => simp [hnamed]
  · next hnamed => simp [hnamed]

/-- The errors that get past the command, and no others. -/
theorem run_eq_error_iff : run text time top = .error e ↔ Escapes text top e := by
  have hstop : run text time top = .error e ↔
      (do (← read text).answer time top : Except Stop Printed) = .error (.failed e) := by
    unfold run
    split
    · next hprinted => simp [hprinted]
    · next hstopped => rw [hstopped, Stop.printed_eq_error, Except.error.injEq]
  rw [hstop, bind_eq_error, read_eq_failed_iff]
  simp only [read_eq_ok_iff_asks, answer_eq_failed_iff]
  constructor
  · rintro ((⟨l, hread, rfl⟩ | ⟨ms, hread, hfails⟩) | ⟨command, ⟨ms, hread, hasks⟩, pathError, hnamed, rfl⟩)
    · exact .limit hread
    · exact .part hread hfails
    · exact .path hread hasks hnamed
  · rintro (hread | ⟨hread, hfails⟩ | ⟨hread, hasks, hnamed⟩)
    · exact .inl (.inl ⟨_, hread, rfl⟩)
    · exact .inl (.inr ⟨_, hread, hfails⟩)
    · exact .inr ⟨_, ⟨_, hread, hasks⟩, _, hnamed, rfl⟩

/-! ## The two ways to end -/

/-- A text is a request to scan the directory at `root` as a command says. -/
def Orders (text : CodeString) (top : Node) (command : Command) (root : Door) : Prop :=
  ∃ ms readable entries, Json.read text = .ok (.obj ms) ∧ Asks ms command ∧
    top.named command.path = .ok (some (root, .dir readable entries))

/-- What a command prints of a result is no refusal. -/
theorem exitCode_print (command : Command) (r : ScanResult) : (command.print r).exitCode = 0 := by
  unfold print
  split <;> rfl

/-- The command is successful if its request is in order and names a directory. -/
theorem run_successful_iff {p : Printed} :
    (run text time top = .ok p ∧ p.exitCode = 0) ↔
      ∃ command root readable entries, read text = .ok command ∧
        top.named command.path = .ok (some (root, .dir readable entries)) ∧
        p = command.print (scan command.analyzer command.config time top root) := by
  unfold run
  constructor
  · intro ⟨h, hexit⟩
    split at h
    · next p' hp =>
      cases h
      obtain ⟨command, hread, hanswer⟩ := bind_eq_ok.mp hp
      unfold answer at hanswer
      split at hanswer
      · cases hanswer
      · next root readable entries hnamed =>
        cases hanswer
        exact ⟨command, root, readable, entries, hread, hnamed, rfl⟩
      · cases hanswer
    · next s _ =>
      cases s with
      | refused r =>
        cases h
        cases hexit
      | failed e => cases h
  · intro ⟨command, root, readable, entries, hread, hnamed, hp⟩
    subst hp
    have hanswer : (do (← read text).answer time top : Except Stop Printed) =
        .ok (command.print (scan command.analyzer command.config time top root)) := by
      refine bind_eq_ok.mpr ⟨command, hread, ?_⟩
      rw [answer, hnamed]
    rw [hanswer]
    exact ⟨rfl, exitCode_print _ _⟩

/-- The command scans what the text orders, and prints one result. -/
theorem run_successful_iff_orders :
    (run text time top = .ok p ∧ p.exitCode = 0) ↔
      ∃ command root, Orders text top command root ∧
        p = command.print (scan command.analyzer command.config time top root) := by
  rw [run_successful_iff]
  simp only [read_eq_ok_iff_asks]
  constructor
  · rintro ⟨command, root, readable, entries, ⟨ms, hread, hasks⟩, hnamed, hp⟩
    exact ⟨command, root, ⟨ms, readable, entries, hread, hasks, hnamed⟩, hp⟩
  · rintro ⟨command, root, ⟨ms, readable, entries, hread, hasks, hnamed⟩, hp⟩
    exact ⟨command, root, readable, entries, ⟨ms, hread, hasks⟩, hnamed, hp⟩

/-- A text that is to be refused: it is not accepted as JSON, or the analyzer, the format or the directory
is not one that there is. -/
inductive Faulty (text : CodeString) (top : Node) : Prop
  | unread (h : ∀ v, Json.read text ≠ .ok v)
  | analyzer {ms : Members} (hread : Json.read text = .ok (.obj ms))
    (h : ∀ a : Analyzer, analyzerValue ms ≠ .text a.name)
  | format {ms : Members} (hread : Json.read text = .ok (.obj ms))
    (h : ∀ f : OutputFormat, formatValue ms ≠ .text f.name)
  | directory {ms : Members} (hread : Json.read text = .ok (.obj ms))
    (h : ∀ path root readable entries, directoryValue? ms = some (.str path) →
      top.named path ≠ .ok (some (root, .dir readable entries)))

theorem Orders.not_faulty (h : Orders text top command root) : ¬Faulty text top := by
  obtain ⟨ms, readable, entries, hread, hasks, hnamed⟩ := h
  rintro (hnot | ⟨hread', hnot⟩ | ⟨hread', hnot⟩ | ⟨hread', hnot⟩)
  · exact hnot _ hread
  all_goals
    rw [hread] at hread'
    cases hread'
  · exact hnot _ hasks.analyzer
  · exact hnot _ hasks.format
  · exact hnot _ _ _ _ hasks.directory hnamed

/-- A result is printed in the format asked for, with a line end. -/
theorem text_print (command : Command) (r : ScanResult) :
    (command.print r).text = command.format.written r ++ CodeString.ofString "\n" := by
  unfold print
  split
  · next h =>
    rw [h]
    rfl
  · next h =>
    rw [h]
    rfl

/-- What is printed says what is wrong with a request: one object with a member `error`. -/
def PrintsError (p : Printed) : Prop :=
  ∃ ms reason, p.text = CodeString.ofString (Json.obj ms).render ++ CodeString.ofString "\n" ∧
    Json.member? ms "error" = some (.str reason)

theorem printsError_refusal (r : Refusal) : PrintsError (.refusal r) := ⟨_, r.message, rfl, rfl⟩

/-- **The two ways to end.** The errors that get past the command are those of `Escapes`. If there is none,
the command ends in one of two ways. Either the text orders a scan, is not faulty, and the exit code is 0
after the result of the scan was printed, as JSON or as a report. Or the text orders no scan, and the exit
code is 1 after one object was printed that says why. So a faulty text is refused, unless an error gets
past. -/
theorem run_ends (text : CodeString) (time : RunTime) (top : Node) :
    (∀ e, run text time top = .error e ↔ Escapes text top e) ∧
      ((∀ e, ¬Escapes text top e) →
        ∃ p, run text time top = .ok p ∧
          ((p.exitCode = 0 ∧ ¬Faulty text top ∧
              ∃ command root, Orders text top command root ∧
                p.text = command.format.written (scan command.analyzer command.config time top root) ++
                  CodeString.ofString "\n") ∨
            (p.exitCode = 1 ∧ (∀ command root, ¬Orders text top command root) ∧ PrintsError p))) := by
  refine ⟨fun e => run_eq_error_iff, fun hnone => ?_⟩
  cases hrun : run text time top with
  | error e => exact absurd (run_eq_error_iff.mp hrun) (hnone e)
  | ok p =>
    refine ⟨p, rfl, ?_⟩
    by_cases hexit : p.exitCode = 0
    · obtain ⟨command, root, horders, hp⟩ := run_successful_iff_orders.mp ⟨hrun, hexit⟩
      subst hp
      exact .inl ⟨hexit, horders.not_faulty, command, root, horders, text_print _ _⟩
    · have hnothing (command : Command) (root : Door) : ¬Orders text top command root := fun horders => by
        have hok : run text time top = .ok _ ∧ _ := run_successful_iff_orders.mpr ⟨command, root, horders, rfl⟩
        rw [hrun] at hok
        cases hok.1
        exact hexit hok.2
      cases p with
      | refusal r => exact .inr ⟨rfl, hnothing, printsError_refusal r⟩
      | _ => exact absurd rfl hexit

/-- The members of a request for a scan of the top directory with an analyzer as given. -/
def membersFor (analyzer : Json) : Members :=
  [(CodeString.ofString "path", .text "."), (CodeString.ofString "analyzer", analyzer)]

/-- The request as a text. -/
def requestFor (analyzer : Json) : CodeString := CodeString.ofString (Json.obj (membersFor analyzer)).render

/-- A request is faulty if its analyzer is none. -/
theorem faulty_requestFor {analyzer : Json}
    (hread : Json.read (requestFor analyzer) = .ok (.obj (membersFor analyzer)))
    (h : ∀ a : Analyzer, analyzer ≠ .text a.name) : Faulty (requestFor analyzer) top :=
  .analyzer hread h

/-- The name of no analyzer is refused. -/
theorem run_ends_unknown :
    (∀ e, ¬Escapes (requestFor (.text "lint")) (.dir true []) e) ∧
      Faulty (requestFor (.text "lint")) (.dir true []) ∧
      ∃ p, run (requestFor (.text "lint")) ⟨"", 0⟩ (.dir true []) = .ok p ∧ p.exitCode = 1 ∧
        PrintsError p := by
  have hread : Json.read (requestFor (.text "lint")) = .ok (.obj (membersFor (.text "lint"))) := by with_unfolding_all rfl
  have hrun : run (requestFor (.text "lint")) ⟨"", 0⟩ (.dir true []) =
      .ok (.refusal (.unknownAnalyzer "lint")) := by with_unfolding_all rfl
  obtain ⟨herror, hends⟩ := run_ends (requestFor (.text "lint")) ⟨"", 0⟩ (.dir true [])
  have hnone (e : CommandError) : ¬Escapes (requestFor (.text "lint")) (.dir true []) e := fun he => by
    have hfailed := (herror e).mpr he
    rw [hrun] at hfailed
    cases hfailed
  have hfaulty : Faulty (requestFor (.text "lint")) (.dir true []) :=
    faulty_requestFor hread fun a ha => by
      have hname := CodeString.ofString_injective (Json.str.inj ha)
      cases a <;> exact absurd hname (by decide)
  obtain ⟨p, hp, ⟨_, hnot, _⟩ | ⟨hexit, _, hprints⟩⟩ := hends hnone
  · exact absurd hfaulty hnot
  · exact ⟨hnone, hfaulty, p, hp, hexit, hprints⟩

/-- An empty list in the place of the name names no analyzer either, and is not refused: an error gets past
the command, and nothing is printed. -/
theorem run_list_for_analyzer :
    Faulty (requestFor (.arr [])) (.dir true []) ∧
      ¬∃ p, run (requestFor (.arr [])) ⟨"", 0⟩ (.dir true []) = .ok p := by
  have hread : Json.read (requestFor (.arr [])) = .ok (.obj (membersFor (.arr []))) := by with_unfolding_all rfl
  have hrun : run (requestFor (.arr [])) ⟨"", 0⟩ (.dir true []) = .error (.notAName .array) := by with_unfolding_all rfl
  have hfaulty : Faulty (requestFor (.arr [])) (.dir true []) :=
    faulty_requestFor hread fun a ha => by cases ha
  refine ⟨hfaulty, ?_⟩
  rintro ⟨p, hp⟩
  rw [hrun] at hp
  cases hp

end Command

end SourceScan
