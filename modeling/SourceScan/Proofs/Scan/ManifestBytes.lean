import Mathlib.Data.List.Nodup
import SourceScan.Proofs.Scan.Scripts
import SourceScan.Proofs.Tree.Follow
import SourceScan.Proofs.Walk.Shape

/-!
# What the bytes of the manifest decide

Two trees that differ in what the manifest at the root holds, and in nothing else, are walked alike, and
every other file reads the same in both (`contentAt?_eq`). So two scans of them differ in what is about the
manifest; and beyond that only if the check of one manifest has no answer, because what the other files of
the project would show is lost with it (`scan_manifest_bytes`). A number of too many digits is enough for
that (`scan_manifest_bytes_overlong`).
-/

namespace SourceScan.Scan

variable {config : Config} {time time' : RunTime} {top top' : Node} {root : Door}
  {dirs : RelativePath} {name : CodeString} {p₀ : RelativePath}

/-- Where a path from the root leads in the tree, by the names that the disk has for the directories. -/
def placeOf (root : Door) (path : RelativePath) : Location := root.place.map FileName.stored ++ path

/-- Of two trees that differ in one file every other file holds the same, if no link leads to that one. -/
theorem contentAt?_eq (hdiffer : Node.DifferAt (placeOf root p₀) top top')
    (hlinks : ¬top.LinkLeadsTo root.links (placeOf root p₀)) (hway : top.IsWay root.place dirs)
    (hnames : ∀ x ∈ dirs ++ [name], FileName.isProper x = true) (hne : dirs ++ [name] ≠ p₀) :
    contentAt? top' root (dirs ++ [name]) = contentAt? top root (dirs ++ [name]) := by
  have hfollow : top'.follow root (RelativePath.text (dirs ++ [name])) =
      top.follow root (RelativePath.text (dirs ++ [name])) := by
    rw [← Node.follow_shape, ← hdiffer.shape_eq, Node.follow_shape]
  simp only [contentAt?, Node.open?, hfollow]
  cases hd : top.follow root (RelativePath.text (dirs ++ [name])) with
  | error e => rfl
  | ok d =>
    -- The file that differs is found at its own place alone, and the path leads to another.
    have hother : d.place.map FileName.stored ≠ placeOf root p₀ := by
      intro heq
      rcases Node.place_of_follow_text hway hnames hd with hplace | ⟨⟨target, htarget⟩, hlink⟩
      · have hstored : (dirs ++ [name]).map FileName.stored = dirs ++ [name] :=
          (List.map_congr_left fun x hx => FileName.stored_of_isProper (hnames x hx)).trans (List.map_id _)
        rw [hplace, List.append_assoc, List.map_append, hstored, placeOf] at heq
        exact hne (List.append_cancel_left heq)
      · exact hlinks ⟨_, name, target, d, htarget, hlink, heq⟩
    simp only [Except.toOption, Option.bind_some]
    rcases hdiffer.at?_eq_or d.place with heq | ⟨rest, k, k', hplace, hk, hk', hrest⟩
    · rw [heq]
    · rw [hk, hk']
      cases hrest with
      | file => exact absurd (hplace.trans (List.append_nil _)).symm hother
      | dir => rfl

theorem isWay_of_finds {w : Walk} {start : Node} (hp : top.Proper)
    (hstart : top.at? root.place = some start) (h : w.Finds top root ⟨[], 0, start⟩ dirs name) :
    top.IsWay root.place dirs := by
  have hdir : ∀ e, e <+: dirs → ∃ l es, top.at? (root.place ++ e) = some (.dir l es) := by
    intro e he
    obtain ⟨es, hes⟩ := h.listable e he
    rw [Node.at?_append, hstart]
    exact ⟨true, es, (hp.of_at? hstart).at?_of_holds hes⟩
  intro e x he
  refine ⟨hdir e ((List.prefix_append e [x]).trans he), ?_⟩
  rw [List.append_assoc]
  exact hdir (e ++ [x]) he

/-- The walk reads the same in both trees, but for the file in which they differ. -/
theorem walkedBytes?_eq {w : Walk} (hp : top.Proper) (hdiffer : Node.DifferAt (placeOf root p₀) top top')
    (hlinks : ¬top.LinkLeadsTo root.links (placeOf root p₀)) {p : RelativePath}
    (h : p ∈ w.files top root) (hne : p ≠ p₀) : walkedBytes? top' root p = walkedBytes? top root p := by
  have hnames := (Walk.names_of_mem_files hp h).2
  obtain ⟨start, dirs, name, hstart, rfl, hfinds⟩ := (Walk.mem_files hp).mp h
  rw [walkedBytes?, contentAt?_eq hdiffer hlinks (isWay_of_finds hp hstart hfinds) hnames hne, walkedBytes?]

/-- A file of the project reads the same in both trees, if it is not the one in which they differ. -/
theorem projectText?_eq (hdiffer : Node.DifferAt (placeOf root p₀) top top')
    (hlinks : ¬top.LinkLeadsTo root.links (placeOf root p₀)) {name : String}
    (hname : FileName.isProper name = true) (hne : [CodeString.ofString name] ≠ p₀) :
    projectText? top' root name = projectText? top root name := by
  have hway : top.IsWay root.place [] := by
    intro e x he
    exact absurd (List.prefix_nil.mp he) (by simp)
  have hone : ∀ x ∈ [] ++ [CodeString.ofString name], FileName.isProper x = true := by
    intro x hx
    rw [List.mem_singleton.mp hx]
    exact hname
  have heq := contentAt?_eq hdiffer hlinks hway hone hne
  rw [List.nil_append] at heq
  rw [projectText?, heq, projectText?]

/-! ## The manifest -/

/-- The issues that are about other files than the manifest. -/
def besideManifest (issues : List Issue) : List Issue :=
  issues.filter fun i => i.file ≠ CodeString.ofString Manifest.fileName

theorem besideManifest_append (l m : List Issue) :
    besideManifest (l ++ m) = besideManifest l ++ besideManifest m :=
  List.filter_append l m

theorem besideManifest_eq_self {l : List Issue}
    (h : ∀ i ∈ l, i.file ≠ CodeString.ofString Manifest.fileName) : besideManifest l = l :=
  List.filter_eq_self.mpr fun i hi => decide_eq_true (h i hi)

theorem besideManifest_eq_nil {l : List Issue}
    (h : ∀ i ∈ l, i.file = CodeString.ofString Manifest.fileName) : besideManifest l = [] := by
  refine List.filter_eq_nil_iff.mpr fun i hi => ?_
  simp only [h i hi, ne_eq, not_true_eq_false, decide_false, Bool.false_eq_true, not_false_eq_true]

/-- The path of the manifest from the root. -/
def manifestPath : RelativePath := [CodeString.ofString Manifest.fileName]

theorem file_ne_of_mem_plainFindings {i : Issue} (h : i ∈ plainFindings top root) :
    i.file ≠ CodeString.ofString Manifest.fileName := by
  rcases List.mem_append.mp h with hi | hi
  · obtain ⟨_, name, hname, hfile⟩ := BuildConfig.place_of_mem_issuesIn hi
    have hall : ∀ name ∈ BuildConfig.fileNames,
        CodeString.ofString name ≠ CodeString.ofString Manifest.fileName := by decide +kernel
    rw [hfile]
    exact hall name hname
  · rw [(Requirements.place_of_mem_issuesIn hi).2]
    decide +kernel

theorem plainFindings_eq (hdiffer : Node.DifferAt (placeOf root manifestPath) top top')
    (hlinks : ¬top.LinkLeadsTo root.links (placeOf root manifestPath)) :
    plainFindings top' root = plainFindings top root := by
  have hnames : ∀ name ∈ Requirements.fileName :: BuildConfig.fileNames,
      FileName.isProper name = true ∧ [CodeString.ofString name] ≠ manifestPath := by decide +kernel
  have hread : ∀ name ∈ Requirements.fileName :: BuildConfig.fileNames,
      projectText? top' root name = projectText? top root name := fun name hname =>
    projectText?_eq hdiffer hlinks (hnames name hname).1 (hnames name hname).2
  rw [plainFindings, plainFindings, hread _ List.mem_cons_self]
  refine congrArg (· ++ _) (List.flatMap_congr fun name hname => ?_)
  rw [hread name (List.mem_cons_of_mem _ hname)]

/-- The manifest at the root, if there is one, can be checked for its dependencies. -/
def ManifestCheckable (config : Config) (top : Node) (root : Door) : Prop :=
  ∀ text, projectText? top root Manifest.fileName = some text →
    Manifest.Checkable (Manifest.heavyNames config) (CodeString.ofChars text)

theorem exists_checkDependencies : (∃ found, Manifest.checkDependencies config
      ((projectText? top root Manifest.fileName).map CodeString.ofChars) = .ok found) ↔
    ManifestCheckable config top root := by
  rw [ManifestCheckable]
  cases projectText? top root Manifest.fileName with
  | none => exact ⟨fun _ => nofun, fun _ => ⟨[], rfl⟩⟩
  | some text =>
    rw [Option.map_some, Manifest.exists_checkDependencies_iff]
    simp only [Option.some.injEq, forall_eq']

/-- Without what is about the manifest, the project's own files show what they show without it, if the
manifest can be checked, and nothing otherwise. -/
theorem besideManifest_projectFindings (config : Config) (top : Node) (root : Door) :
    (ManifestCheckable config top root →
        besideManifest (projectFindings .performance config top root) = plainFindings top root) ∧
      (¬ManifestCheckable config top root → projectFindings .performance config top root = []) := by
  rw [projectFindings_performance, ← exists_checkDependencies]
  cases h : Manifest.checkDependencies config
      ((projectText? top root Manifest.fileName).map CodeString.ofChars) with
  | error e => exact ⟨fun ⟨_, hok⟩ => (nomatch hok), fun _ => rfl⟩
  | ok manifest =>
    refine ⟨fun _ => ?_, fun hnot => absurd ⟨manifest, rfl⟩ hnot⟩
    have hmanifest : besideManifest manifest = [] :=
      besideManifest_eq_nil fun i hi => (Manifest.place_of_mem_checkDependencies h hi).2
    have hplain : besideManifest (plainFindings top root) = plainFindings top root :=
      besideManifest_eq_self fun i hi => file_ne_of_mem_plainFindings hi
    dsimp only
    rw [besideManifest_append, hmanifest, hplain, List.nil_append]

/-- Without what is about the manifest, the walk finds the same in both trees. -/
theorem besideManifest_walkFindings (config : Config) (hp : top.Proper)
    (hdiffer : Node.DifferAt (placeOf root manifestPath) top top')
    (hlinks : ¬top.LinkLeadsTo root.links (placeOf root manifestPath)) (a : Analyzer) (w : Walk) :
    besideManifest ((w.files top root).flatMap fun p =>
        findings a config p.text (walkedBytes? top' root p)) =
      besideManifest ((w.files top root).flatMap fun p =>
        findings a config p.text (walkedBytes? top root p)) := by
  rw [besideManifest, List.filter_flatMap, besideManifest, List.filter_flatMap]
  refine List.flatMap_congr fun p hpm => ?_
  by_cases hne : p = manifestPath
  · have hnone : ∀ bytes, besideManifest (findings a config p.text bytes) = [] := by
      intro bytes
      refine besideManifest_eq_nil fun i hi => ?_
      rw [file_of_mem_findings hi, hne]
      decide +kernel
    exact (hnone _).trans (hnone _).symm
  · rw [walkedBytes?_eq hp hdiffer hlinks hpm hne]

/-- **What the bytes of the manifest decide.** Of two trees that differ in what the manifest at the root
holds, and in nothing else, and in which no link leads to it, as many files are scanned; and but for what is
about the manifest the same is found in both, in the same order, if and only if the other files of the
project show nothing anyway, or both manifests can be checked, or neither can. -/
theorem scan_manifest_bytes (config : Config) (time time' : RunTime) (hp : top.Proper)
    (hdiffer : Node.DifferAt (placeOf root manifestPath) top top')
    (hlinks : ¬top.LinkLeadsTo root.links (placeOf root manifestPath)) :
    (scan .performance config time' top' root).filesScanned =
        (scan .performance config time top root).filesScanned ∧
      (besideManifest (scan .performance config time' top' root).issues =
          besideManifest (scan .performance config time top root).issues ↔
        plainFindings top root = [] ∨
          (ManifestCheckable config top root ↔ ManifestCheckable config top' root)) := by
  have hfiles : (walk .performance config).files top' root = (walk .performance config).files top root := by
    rw [← Walk.files_shape, ← hdiffer.shape_eq, Walk.files_shape]
  refine ⟨by rw [filesScanned_scan, filesScanned_scan, hfiles], ?_⟩
  rw [issues_scan, issues_scan, hfiles, besideManifest_append, besideManifest_append,
    besideManifest_walkFindings config hp hdiffer hlinks, List.append_right_inj]
  obtain ⟨hok, hnot⟩ := besideManifest_projectFindings config top root
  obtain ⟨hok', hnot'⟩ := besideManifest_projectFindings config top' root
  rw [plainFindings_eq hdiffer hlinks] at hok'
  have hnil : besideManifest [] = [] := rfl
  by_cases h : ManifestCheckable config top root <;> by_cases h' : ManifestCheckable config top' root
  · rw [hok h, hok' h']
    simp only [h, h', or_true]
  · rw [hok h, hnot' h', hnil]
    simp only [h, h', iff_false, not_true_eq_false, or_false, eq_comm]
  · rw [hnot h, hok' h', hnil]
    simp only [h, h', iff_true, or_false]
  · rw [hnot h, hnot' h']
    simp only [h, h', or_true]

/-- A manifest and a list of required packages, one of which is heavy. -/
def requiring (manifest : Content) : Node :=
  .dir true [("package.json", .file manifest),
    ("requirements.txt", .file (.open ⟨"torch".toUTF8, by decide +kernel⟩))]

theorem requiring_proper (c : Content) : (requiring c).Proper := by
  have hdistinct : [("package.json" : CodeString), "requirements.txt"].Nodup := by decide +kernel
  have hnames : ∀ name ∈ [("package.json" : CodeString), "requirements.txt"],
      FileName.isProper name = true := by decide +kernel
  refine .dir hdistinct (fun e he => hnames e.1 (List.mem_map_of_mem (f := Prod.fst) he)) fun e he => ?_
  simp only [List.mem_cons, List.not_mem_nil, or_false] at he
  rcases he with rfl | rfl <;> exact .file _

theorem requiring_differAt (c c' : Content) :
    Node.DifferAt (placeOf .top manifestPath) (requiring c) (requiring c') :=
  .dir true [] _ (.file c c')

theorem requiring_no_link (c : Content) (links : Nat) (place : Location) :
    ¬(requiring c).LinkLeadsTo links place := by
  intro ⟨here, name, target, _, hlink, _⟩
  have hfile : ∀ x n, (requiring c).child? x = some n → ∃ c, n = .file c := by
    intro x n hn
    obtain ⟨before, after, hentries, _⟩ := List.lookup_eq_some_iff.mp hn
    have hmem : (FileName.stored x, n) ∈ before ++ (FileName.stored x, n) :: after :=
      List.mem_append_right _ List.mem_cons_self
    rw [← hentries] at hmem
    simp only [List.mem_cons, Prod.mk.injEq, List.not_mem_nil, or_false] at hmem
    rcases hmem with ⟨_, rfl⟩ | ⟨_, rfl⟩ <;> exact ⟨_, rfl⟩
  cases here with
  | nil =>
    obtain ⟨n, hn, hat⟩ := Option.bind_eq_some_iff.mp hlink
    obtain ⟨c, rfl⟩ := hfile name n hn
    cases hat
  | cons x here =>
    obtain ⟨n, hn, hat⟩ := Option.bind_eq_some_iff.mp hlink
    obtain ⟨c, rfl⟩ := hfile x n hn
    cases here <;> cases hat

theorem projectText?_requiring (c : Content) :
    projectText? (requiring c) .top Requirements.fileName = some "torch".toList := by
  rw [projectText?, requiring, contentAt?_file (by decide) rfl]
  decide +kernel

/-- An object without members, as a manifest. -/
def emptyManifest : Content := .open ⟨"\x7b\x7d".toUTF8, by decide +kernel⟩

theorem checkable_shut (config : Config) : ManifestCheckable config (requiring .shut) .top := by
  have hnone : projectText? (requiring .shut) .top Manifest.fileName = none := by
    rw [projectText?, requiring, contentAt?_file (by decide) rfl]
    rfl
  intro text h
  rw [hnone] at h
  cases h

theorem checkable_emptyManifest : ManifestCheckable {} (requiring emptyManifest) .top := by
  have htext : projectText? (requiring emptyManifest) .top Manifest.fileName =
      some "\x7b\x7d".toList := by
    rw [projectText?, requiring, contentAt?_file (by decide) rfl]
    decide +kernel
  intro text h
  rw [htext] at h
  cases h
  refine Manifest.checkable_heavyNames (Json.not_exceeds_of_length_le (by decide)) fun name hname => ?_
  obtain ⟨t, _, rfl⟩ := List.mem_map.mp hname
  exact ⟨t, rfl⟩

/-- A manifest that cannot be opened and one that is empty leave the other findings alone. -/
theorem scan_manifest_bytes_empty :
    (requiring .shut).Proper ∧
      Node.DifferAt (placeOf .top manifestPath) (requiring .shut) (requiring emptyManifest) ∧
      ¬(requiring .shut).LinkLeadsTo Door.top.links (placeOf .top manifestPath) ∧
      besideManifest (scan .performance {} ⟨"", 0⟩ (requiring emptyManifest) .top).issues =
        besideManifest (scan .performance {} ⟨"", 0⟩ (requiring .shut) .top).issues := by
  have hproper := requiring_proper .shut
  have hdiffer := requiring_differAt .shut emptyManifest
  have hlinks := requiring_no_link .shut Door.top.links (placeOf .top manifestPath)
  have hscan := scan_manifest_bytes {} ⟨"", 0⟩ ⟨"", 0⟩ hproper hdiffer hlinks
  exact ⟨hproper, hdiffer, hlinks,
    hscan.2.mpr (Or.inr (iff_of_true (checkable_shut {}) checkable_emptyManifest))⟩

theorem projectText?_requiring_nines (n : Nat) (h : n + 34 < Nat.pow 2 63) :
    projectText? (requiring (.open (ninesFile n h))) .top Manifest.fileName = some (ninesText n) := by
  have hfile : contentAt? (requiring (.open (ninesFile n h))) .top [Manifest.fileName] =
      some (.open (ninesFile n h)) := contentAt?_file (by decide) rfl
  exact projectText?_of_ascii hfile rfl (isOneByte_ninesText n)

theorem not_checkable_overlong (config : Config) :
    ¬ManifestCheckable config (requiring (.open overlong)) .top := by
  intro h
  obtain ⟨l, hl⟩ := read_ninesText
  exact (h _ (projectText?_requiring_nines _ _)).1 l hl

/-- The heavy package that is required is found beside a manifest that cannot be opened, and not beside one
with a number of one digit too many. -/
theorem scan_manifest_bytes_overlong :
    (requiring .shut).Proper ∧
      Node.DifferAt (placeOf .top manifestPath) (requiring .shut) (requiring (.open overlong)) ∧
      ¬(requiring .shut).LinkLeadsTo Door.top.links (placeOf .top manifestPath) ∧
      besideManifest (scan .performance {} ⟨"", 0⟩ (requiring (.open overlong)) .top).issues ≠
        besideManifest (scan .performance {} ⟨"", 0⟩ (requiring .shut) .top).issues := by
  refine ⟨requiring_proper .shut, requiring_differAt .shut _, requiring_no_link .shut _ _, ?_⟩
  have htorch : Requirements.heavyPackage "torch" ∈ plainFindings (requiring .shut) .top := by
    refine List.mem_append_right _ ?_
    rw [projectText?_requiring]
    decide +kernel
  have hkeep := (besideManifest_projectFindings {} (requiring .shut) .top).1 (checkable_shut {})
  have hlose := (besideManifest_projectFindings {} _ .top).2 (not_checkable_overlong {})
  -- The finding is lost with the check of the manifest, and its rule is none of the walk's.
  have hnot : Requirements.heavyPackage "torch" ∉
      (scan .performance {} ⟨"", 0⟩ (requiring (.open overlong)) .top).issues := by
    rw [mem_scan_issues, hlose]
    rintro (⟨p, _, b, _, hi⟩ | hi)
    · exact rule_ne_of_mem_findings hi ⟨"heavy_python_package", by decide, rfl⟩ rfl
    · cases hi
  rw [← hkeep, besideManifest, List.mem_filter] at htorch
  have hfound : Requirements.heavyPackage "torch" ∈
      besideManifest (scan .performance {} ⟨"", 0⟩ (requiring .shut) .top).issues :=
    List.mem_filter.mpr ⟨mem_scan_issues.mpr (Or.inr htorch.1), htorch.2⟩
  intro heq
  rw [← heq] at hfound
  exact hnot (List.mem_filter.mp hfound).1

end SourceScan.Scan
