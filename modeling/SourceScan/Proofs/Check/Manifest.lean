import SourceScan.Check.Manifest
import SourceScan.Pattern.Lemmas
import SourceScan.Proofs.Except
import SourceScan.Proofs.Json.Distinct
import SourceScan.Proofs.Json.Limit
import SourceScan.Proofs.Text.CodeString

/-!
# What is found in a manifest

The findings about names are one to a name, in their order, and there are none if one of the names is no
text (`issuesAbout_eq_ok`, `exists_issuesAbout_iff`). So the check of a manifest for its dependencies has an
answer unless the reader meets a limit or a name that is to be reported is no text
(`exists_checkDependencies_iff`); where texts are looked for and the manifest passes no limit, it can be checked
(`checkable_heavyNames`). The names in an object of a manifest are different (`nodup_names_membersOf`).
-/

namespace SourceScan.Manifest

variable {issue : String → Issue} {names : List CodeString} {found : List Issue} {i : Issue}

/-- There is an answer about names if they are texts: one issue about each, in their order. -/
theorem issuesAbout_eq_ok : issuesAbout issue names = .ok found ↔
    ∃ texts : List String, names = texts.map CodeString.ofString ∧ found = texts.map issue := by
  induction names generalizing found with
  | nil =>
    constructor
    · intro h
      cases h
      exact ⟨[], rfl, rfl⟩
    · intro hfound
      obtain ⟨texts, hnames, rfl⟩ := hfound
      rw [List.map_eq_nil_iff.mp hnames.symm]
      rfl
  | cons name names ih =>
    rw [issuesAbout, mapM_cons_eq_ok]
    constructor
    · intro h
      obtain ⟨i, rest, hi, hrest, rfl⟩ := h
      obtain ⟨texts, rfl, rfl⟩ := ih.mp hrest
      cases hname : name.toString? with
      | none =>
        rw [hname] at hi
        cases hi
      | some text =>
        rw [hname] at hi
        cases hi
        rw [CodeString.toString?_eq_some.mp hname]
        exact ⟨text :: texts, rfl, rfl⟩
    · intro hfound
      obtain ⟨texts, hnames, rfl⟩ := hfound
      cases texts with
      | nil => cases hnames
      | cons text texts =>
        obtain ⟨rfl, hrest⟩ := List.cons.inj hnames
        refine ⟨issue text, texts.map issue, ?_, ih.mpr ⟨texts, hrest, rfl⟩, rfl⟩
        rw [CodeString.toString?_eq_some.mpr rfl]

theorem exists_of_mem_issuesAbout (h : issuesAbout issue names = .ok found) (hi : i ∈ found) :
    ∃ name, i = issue name := by
  obtain ⟨texts, _, rfl⟩ := issuesAbout_eq_ok.mp h
  obtain ⟨t, _, rfl⟩ := List.mem_map.mp hi
  exact ⟨t, rfl⟩

/-- A finding on the dependencies is about a heavy one or about their number. -/
theorem exists_of_mem_checkDependencies {config : Config} {text : Option CodeString}
    (h : checkDependencies config text = .ok found) (hi : i ∈ found) :
    (∃ name, i = heavyDependency name) ∨ ∃ n, i = manyDependencies n := by
  obtain ⟨manifest, _, h⟩ := bind_eq_ok.mp h
  cases manifest with
  | none =>
    cases h
    cases hi
  | some manifest =>
    obtain ⟨heavy, hheavy, h⟩ := bind_eq_ok.mp h
    cases h
    rcases List.mem_append.mp hi with hi | hi
    · exact Or.inl (exists_of_mem_issuesAbout hheavy hi)
    · split at hi
      · exact Or.inr ⟨_, List.mem_singleton.mp hi⟩
      · cases hi

/-- A finding on the scripts is about one that pipes a download into a shell. -/
theorem exists_of_mem_checkScripts {text : Option CodeString} (h : checkScripts text = .ok found)
    (hi : i ∈ found) : ∃ name, i = pipedDownload name := by
  obtain ⟨manifest, _, h⟩ := bind_eq_ok.mp h
  cases manifest with
  | none =>
    cases h
    cases hi
  | some manifest => exact exists_of_mem_issuesAbout h hi

/-- The members of an object in a manifest have names of their own. -/
theorem nodup_names_membersOf {text : Option CodeString} {manifest : Members}
    (h : load text = .ok (some manifest)) (name : String) :
    ((membersOf manifest name).map (·.1)).Nodup := by
  have hdistinct : (Json.obj manifest).Distinct := by
    cases text with
    | none => cases h
    | some text =>
      rw [load] at h
      split at h
      · next hread =>
        cases h
        exact Json.distinct_of_read hread
      · cases h
      · cases h
      · cases h
  rw [membersOf]
  split
  · next hmember => exact (hdistinct.of_member? hmember).nodup_names
  · exact List.nodup_nil

/-- Names have an answer if and only if all of them are texts. -/
theorem exists_issuesAbout_iff :
    (∃ found, issuesAbout issue names = .ok found) ↔ ∀ name ∈ names, name.IsText := by
  constructor
  · intro ⟨found, h⟩ name hname
    obtain ⟨texts, rfl, _⟩ := issuesAbout_eq_ok.mp h
    obtain ⟨t, _, rfl⟩ := List.mem_map.mp hname
    exact ⟨t, rfl⟩
  · intro h
    obtain ⟨texts, htexts⟩ := CodeString.exists_map_ofString h
    exact ⟨_, issuesAbout_eq_ok.mpr ⟨texts, htexts, rfl⟩⟩

/-- What the text of a manifest has to be for a check to have an answer: the reader meets no limit in it,
and of the object that it reads those names are texts that the check reports. -/
def Checkable (reported : Members → List CodeString) (text : CodeString) : Prop :=
  (∀ l, Json.read text ≠ .error (.limit l)) ∧
    ∀ ms, Json.read text = .ok (.obj ms) → ∀ name ∈ reported ms, name.IsText

/-- The names of the dependencies that are known to be heavy. -/
def heavyNames (config : Config) (manifest : Members) : List CodeString :=
  ((membersOf manifest "dependencies").map (·.1)).filter config.heavyDependencies.contains

/-- The names of the scripts that pipe a download into a shell, in their order. -/
def pipedNames (manifest : Members) : List CodeString :=
  ((membersOf manifest "scripts").filter fun (_, v) => isPipedDownload v).map (·.1)

theorem exists_dependencyIssues_iff {config : Config} {manifest : Members} :
    (∃ found, dependencyIssues config manifest = .ok found) ↔
      ∀ name ∈ heavyNames config manifest, name.IsText := by
  constructor
  · intro ⟨found, h⟩
    obtain ⟨heavy, hheavy, _⟩ := bind_eq_ok.mp h
    exact exists_issuesAbout_iff.mp ⟨heavy, hheavy⟩
  · intro h
    obtain ⟨heavy, hheavy⟩ := exists_issuesAbout_iff.mpr h
    exact ⟨_, bind_eq_ok.mpr ⟨heavy, hheavy, rfl⟩⟩

/-- A check that reads the manifest first has an answer if the manifest can be checked for the names that
it reports. -/
theorem exists_check_iff {check : Members → Except CheckError (List Issue)}
    {reported : Members → List CodeString} {text : CodeString}
    (hcheck : ∀ ms, (∃ found, check ms = .ok found) ↔ ∀ name ∈ reported ms, name.IsText) :
    (∃ found, (load (some text) >>= fun | some ms => check ms | none => .ok []) = .ok found) ↔
      Checkable reported text := by
  rw [load, Checkable]
  cases Json.read text with
  | error e =>
    cases e with
    | malformed reason place =>
      exact ⟨fun _ => ⟨nofun, nofun⟩, fun _ => ⟨[], rfl⟩⟩
    | limit l =>
      constructor
      · intro ⟨_, h⟩
        cases h
      · intro h
        exact absurd rfl (h.1 l)
  | ok v =>
    cases v with
    | obj ms =>
      refine (hcheck ms).trans ⟨fun h => ⟨nofun, fun ms' hms => ?_⟩, fun h => h.2 ms rfl⟩
      cases hms
      exact h
    | _ => exact ⟨fun _ => ⟨nofun, nofun⟩, fun _ => ⟨[], rfl⟩⟩

theorem exists_checkDependencies_iff {config : Config} {text : CodeString} :
    (∃ found, checkDependencies config (some text) = .ok found) ↔ Checkable (heavyNames config) text :=
  exists_check_iff fun _ => exists_dependencyIssues_iff

/-- A manifest that passes no limit can be checked for its dependencies, if texts are looked for. -/
theorem checkable_heavyNames {config : Config} {text : CodeString}
    (hlimits : ∀ l, ¬Json.Exceeds Json.maxDepth l text)
    (hnames : ∀ name ∈ config.heavyDependencies, name.IsText) : Checkable (heavyNames config) text := by
  refine ⟨fun l hl => hlimits l (Json.exceeds_of_read hl), fun ms _ name hname => ?_⟩
  exact hnames name (List.contains_iff_mem.mp (List.mem_filter.mp hname).2)

/-! ## Scripts -/

/-- A script is reported if it is a string in which the pattern of a piped download is found. -/
theorem isPipedDownload_iff {v : Json} : isPipedDownload v = true ↔
    ∃ script, v = .str script ∧ Pattern.OccursIn script.shown.toArray downloadIntoShell := by
  cases v with
  | str script =>
    simp only [isPipedDownload, Pattern.found_iff, Json.str.injEq, exists_eq_left']
  | _ => simp only [isPipedDownload, Bool.false_eq_true, reduceCtorEq, false_and, exists_false]

theorem nodup_pipedNames {text : CodeString} {ms : Members} (h : Json.read text = .ok (.obj ms)) :
    (pipedNames ms).Nodup := by
  have hload : load (some text) = .ok (some ms) := by
    rw [load, h]
  exact (nodup_names_membersOf hload "scripts").sublist (List.filter_sublist.map _)

theorem checkScripts_of_read {text : CodeString} {ms : Members} (h : Json.read text = .ok (.obj ms)) :
    checkScripts (some text) = issuesAbout pipedDownload (pipedNames ms) := by
  rw [checkScripts, load, h]
  rfl

end SourceScan.Manifest
