import SourceScan.Command
import SourceScan.Proofs.Except
import SourceScan.Proofs.Text.CodeString

/-!
# What a request asks for

The command looks at the parts of a request one after the other. It takes the request if all of them are in
order (`Command.Asks`, `ofMembers_eq_ok_iff`), and that does not depend on the order in which it looks. What it
does with a request that it does not take depends on it: a part that is of the wrong kind ends the reading
with a refusal or with an error, and the first such part decides which. Only three parts can end it with an
error (`Command.Fails`, `ofMembers_eq_failed_iff`): a list or an object where the name of an analyzer or of a
format is due, and a value that is something and no string where the path is due.
-/

namespace SourceScan

variable {ms : Members} {v : Json} {s : String} {e : CommandError}

theorem Json.text?_eq_some : v.text? = some s ↔ v = .text s := by
  cases v with
  | str t =>
    rw [text?, CodeString.toString?_eq_some, text]
    exact ⟨congrArg Json.str, Json.str.inj⟩
  | _ => exact ⟨nofun, nofun⟩

/-- Where each member is found by its name, what is found by a name has it. -/
theorem find?_name_eq_some {α : Type} {all : List α} {name : α → String} {a : α}
    (h : ∀ a, all.find? (name · == name a) = some a) : all.find? (name · == s) = some a ↔ s = name a := by
  constructor
  · intro hfound
    have hname := List.find?_some hfound
    exact (beq_iff_eq.mp hname).symm
  · rintro rfl
    exact h a

theorem Analyzer.ofName?_eq_some {a : Analyzer} : ofName? s = some a ↔ s = a.name :=
  find?_name_eq_some fun a => by cases a <;> decide

theorem OutputFormat.ofName?_eq_some {f : OutputFormat} : ofName? s = some f ↔ s = f.name :=
  find?_name_eq_some fun f => by cases f <;> decide

namespace Command

variable {α : Type} {find : String → Option α} {unknown : CodeString → Refusal} {a : α}
  {command : Command}

/-! ## The parts of a request -/

/-- The value that names the directory: that of `path` if it counts as something, or else that of
`directory` if it does. -/
def directoryValue? (ms : Members) : Option Json :=
  ((Json.member? ms "path").filter Json.isSome).or ((Json.member? ms "directory").filter Json.isSome)

/-- The value that names the analyzer. -/
def analyzerValue (ms : Members) : Json := (Json.member? ms "analyzer").getD (.text "security")

/-- The value that names the format. -/
def formatValue (ms : Members) : Json := (Json.member? ms "format").getD (.text "json")

/-- The kind of a list or an object. -/
def container? : Json → Option Json.Container
  | .arr _ => some .array
  | .obj _ => some .object
  | _ => none

/-- The kind of a value that is something and cannot be a path. -/
def nonPath? : Json → Option NonPath
  | .bool _ => some .bool
  | .int _ => some .int
  | .real _ => some .real
  | .arr _ => some .arr
  | .obj _ => some .obj
  | _ => none

/-- A request asks for a command: it names the directory by a string, and the analyzer and the format by
their names, and its options are those of the configuration. -/
structure Asks (ms : Members) (command : Command) : Prop where
  directory : directoryValue? ms = some (.str command.path)
  analyzer : analyzerValue ms = .text command.analyzer.name
  format : formatValue ms = .text command.format.name
  options : configOf (Json.member? ms "options") = .ok command.config

/-- A part of a request ends the reading with an error, and those that are looked at before are in
order. -/
inductive Fails (ms : Members) : CommandError → Prop
  | analyzer {directory : Json} {c : Json.Container} (hdirectory : directoryValue? ms = some directory)
    (h : container? (analyzerValue ms) = some c) : Fails ms (.notAName c)
  | format {directory : Json} {a : Analyzer} {c : Json.Container}
    (hdirectory : directoryValue? ms = some directory) (hanalyzer : analyzerValue ms = .text a.name)
    (h : container? (formatValue ms) = some c) : Fails ms (.notAName c)
  | directory {directory : Json} {a : Analyzer} {f : OutputFormat} {config : Config} {kind : NonPath}
    (hdirectory : directoryValue? ms = some directory) (hanalyzer : analyzerValue ms = .text a.name)
    (hformat : formatValue ms = .text f.name)
    (hoptions : configOf (Json.member? ms "options") = .ok config)
    (h : nonPath? directory = some kind) : Fails ms (.notAPath kind)

/-! ## What each part comes to -/

theorem pathValue_eq (ms : Members) :
    pathValue ms =
      match directoryValue? ms with
      | some directory => .ok directory
      | none => .error (.refused .noPath) := by
  simp only [pathValue, directoryValue?]
  cases (Json.member? ms "path").filter Json.isSome with
  | some v => rfl
  | none => cases (Json.member? ms "directory").filter Json.isSome <;> rfl

theorem pathValue_eq_ok : pathValue ms = .ok v ↔ directoryValue? ms = some v := by
  rw [pathValue_eq]
  cases directoryValue? ms <;> simp

theorem pathValue_ne_failed : pathValue ms ≠ .error (.failed e) := by
  rw [pathValue_eq]
  cases directoryValue? ms <;> simp

theorem nameOf_eq_ok : nameOf find unknown v = .ok a ↔ v.text?.bind find = some a := by
  cases v with
  | arr items => exact ⟨nofun, nofun⟩
  | obj members => exact ⟨nofun, nofun⟩
  | str s =>
    simp only [nameOf]
    cases (Json.str s).text?.bind find <;> simp
  | _ => exact ⟨nofun, nofun⟩

theorem nameOf_eq_failed :
    nameOf find unknown v = .error (.failed e) ↔ ∃ c, container? v = some c ∧ e = .notAName c := by
  cases v with
  | arr items => simp [nameOf, container?, eq_comm]
  | obj members => simp [nameOf, container?, eq_comm]
  | str s =>
    simp only [nameOf]
    cases (Json.str s).text?.bind find <;> simp [container?]
  | _ => simp [nameOf, container?, Json.text?]

theorem pathOf_eq_ok {path : CodeString} : pathOf v = .ok path ↔ v = .str path := by
  cases v <;> simp [pathOf]

theorem pathOf_eq_failed :
    pathOf v = .error (.failed e) ↔ ∃ kind, nonPath? v = some kind ∧ e = .notAPath kind := by
  cases v <;> simp [pathOf, nonPath?, eq_comm]

theorem configOf_ne_failed {options : Option Json} : configOf options ≠ .error (.failed e) := by
  unfold configOf
  split
  · exact nofun
  · split <;> exact nofun

theorem nameOf_analyzer {a : Analyzer} :
    nameOf Analyzer.ofName? .unknownAnalyzer v = .ok a ↔ v = .text a.name := by
  simp only [nameOf_eq_ok, Option.bind_eq_some_iff, Json.text?_eq_some, Analyzer.ofName?_eq_some,
    exists_eq_right]

theorem nameOf_format {f : OutputFormat} :
    nameOf OutputFormat.ofName? .unknownFormat v = .ok f ↔ v = .text f.name := by
  simp only [nameOf_eq_ok, Option.bind_eq_some_iff, Json.text?_eq_some, OutputFormat.ofName?_eq_some,
    exists_eq_right]

/-! ## The request as a whole -/

/-- A request is taken if all its parts are in order. -/
theorem ofMembers_eq_ok_iff : ofMembers ms = .ok command ↔ Asks ms command := by
  simp only [ofMembers, bind_eq_ok, pathValue_eq_ok, nameOf_analyzer, nameOf_format, pathOf_eq_ok]
  constructor
  · rintro ⟨_, hdirectory, a, ha, f, hf, config, hconfig, path, rfl, hcommand⟩
    cases hcommand
    exact ⟨hdirectory, ha, hf, hconfig⟩
  · intro ⟨hdirectory, ha, hf, hconfig⟩
    exact ⟨_, hdirectory, _, ha, _, hf, _, hconfig, _, rfl, rfl⟩

/-- A request ends with an error if one of three parts does. -/
theorem ofMembers_eq_failed_iff : ofMembers ms = .error (.failed e) ↔ Fails ms e := by
  simp only [ofMembers, bind_eq_error, pathValue_eq_ok, nameOf_analyzer, nameOf_format,
    nameOf_eq_failed, pathOf_eq_failed]
  constructor
  · rintro (h | ⟨directory, hdirectory, ⟨c, hc, rfl⟩ | ⟨a, ha, ⟨c, hc, rfl⟩ | ⟨f, hf, h | ⟨config, hconfig,
      ⟨kind, hkind, rfl⟩ | ⟨path, _, h⟩⟩⟩⟩⟩)
    · exact absurd h pathValue_ne_failed
    · exact .analyzer hdirectory hc
    · exact .format hdirectory ha hc
    · exact absurd h configOf_ne_failed
    · exact .directory hdirectory ha hf hconfig hkind
    · cases h
  · rintro (⟨hdirectory, hc⟩ | ⟨hdirectory, ha, hc⟩ | ⟨hdirectory, ha, hf, hconfig, hkind⟩)
    · exact .inr ⟨_, hdirectory, .inl ⟨_, hc, rfl⟩⟩
    · exact .inr ⟨_, hdirectory, .inr ⟨_, ha, .inl ⟨_, hc, rfl⟩⟩⟩
    · exact .inr ⟨_, hdirectory, .inr ⟨_, ha, .inr ⟨_, hf, .inr ⟨_, hconfig, .inl ⟨_, hkind, rfl⟩⟩⟩⟩⟩

end Command

end SourceScan
