import SourceScan.Proofs.Tree.Proper
import SourceScan.Proofs.Walk.Recursion

/-!
# What the walk yields

A path is yielded exactly if it leads to a file of a wanted extension by directories that the walk
enters and can list. `Walk.Finds` says this of the walk of one directory, and `Finds.step` and
`Finds.of_step` take one step of the way: the walk finds a path below a directory exactly if it enters the
first directory on it and finds the rest there. `mem_filesBelow` is the induction along these steps.
-/

namespace SourceScan

namespace Node

/-- An entry of the directory `here` is a file, or a link that leads to one. -/
def IsFile (top : Node) (here : Door) (name : CodeString) (n : Node) : Prop :=
  (∃ c, n = file c) ∨ ∃ target c, n = link target ∧ top.open? here name = some (file c)

variable {top n : Node} {here : Door} {name : CodeString}

theorem isFileAt_iff : top.isFileAt here name n = true ↔ top.IsFile here name n := by
  cases n with
  | file c => exact ⟨fun _ => Or.inl ⟨c, rfl⟩, fun _ => rfl⟩
  | dir =>
    constructor
    · intro h
      cases h
    · intro hfile
      obtain ⟨c, h⟩ | ⟨target, c, h, _⟩ := hfile <;> cases h
  | link target =>
    constructor
    · intro h
      simp only [isFileAt] at h
      split at h
      · next c hopen => exact Or.inr ⟨target, c, rfl, hopen⟩
      · cases h
    · intro hfound
      rcases hfound with ⟨c, h⟩ | ⟨target', c, h, hopen⟩
      · cases h
      · simp only [isFileAt, hopen]

theorem IsFile.isDir_eq (h : top.IsFile here name n) : n.isDir = false := by
  rcases h with ⟨c, rfl⟩ | ⟨target, c, rfl, _⟩ <;> rfl

/-- Only a directory that may be listed has a listing: its entries. -/
theorem listing?_eq_some {entries : List Entry} :
    n.listing? = some entries ↔
      ∃ es, n = dir true es ∧ entries = es.mergeSort fun a b => a.1.le b.1 := by
  constructor
  · intro h
    match n, h with
    | dir true es, h => exact ⟨es, rfl, (Option.some.inj h).symm⟩
  · intro hfound
    obtain ⟨es, rfl, rfl⟩ := hfound
    rfl

end Node

namespace Walk

variable {w : Walk} {top : Node} {root : Door} {d s : Pending} {entries es : List Entry}
  {name x : CodeString} {dirs p : RelativePath}

theorem enters_iff {depth : Nat} {path : RelativePath} :
    w.enters name path depth = true ↔
      isExcluded name path.text w.skip = false ∧
        ∀ most, w.maxDepth = some most → (depth : Int) + 1 ≤ most := by
  rw [enters, Bool.and_eq_true, Bool.not_eq_true']
  cases w.maxDepth with
  | none => simp only [reduceCtorEq, false_implies, implies_true]
  | some most => simp only [decide_eq_true_eq, Option.some.injEq, forall_eq']

theorem mem_filesAmong {here : RelativePath} :
    p ∈ w.filesAmong top root here entries ↔
      ∃ name n, (name, n) ∈ entries ∧ top.IsFile (root.below here) name n ∧
        w.wants name = true ∧ p = here ++ [name] := by
  rw [filesAmong, mem_filterMap_ite]
  simp only [Prod.exists, Bool.and_eq_true, Bool.not_eq_true', Node.isFileAt_iff, and_assoc]
  refine exists_congr fun name => exists_congr fun n => and_congr_right fun _ => ?_
  constructor
  · intro hfound
    exact hfound.2
  · intro hfound
    exact ⟨hfound.1.isDir_eq, hfound⟩

theorem mem_dirsAmong :
    s ∈ w.dirsAmong d entries ↔
      ∃ name n, (name, n) ∈ entries ∧ n.isDir = true ∧
        w.enters name (d.path ++ [name]) d.depth = true ∧
        s = ⟨d.path ++ [name], d.depth + 1, n⟩ := by
  rw [dirsAmong, mem_filterMap_ite]
  simp only [Prod.exists, Bool.and_eq_true, and_assoc]

/-- What the walk enters from a proper directory is proper. -/
theorem proper_of_mem_dirsAmong (hp : d.node.Proper) (h : d.node.listing? = some entries)
    (hs : s ∈ w.dirsAmong d entries) : s.node.Proper := by
  obtain ⟨es, hd, rfl⟩ := Node.listing?_eq_some.mp h
  obtain ⟨x, m, hm, _, _, rfl⟩ := mem_dirsAmong.mp hs
  rw [hd] at hp
  exact hp.children _ (List.mem_mergeSort.mp hm)

/-- The walk of a directory finds the file `name` by way of the directories `dirs` in it. -/
structure Finds (w : Walk) (top : Node) (root : Door) (d : Pending) (dirs : RelativePath)
    (name : CodeString) : Prop where
  file : ∃ n, d.node.Holds (dirs ++ [name]) n ∧ top.IsFile (root.below (d.path ++ dirs)) name n
  wanted : w.wants name = true
  listable : ∀ e, e <+: dirs → ∃ es, d.node.Holds e (.dir true es)
  allowed : ∀ e x, e ++ [x] <+: dirs →
    isExcluded x (RelativePath.text (d.path ++ e ++ [x])) w.skip = false
  shallow : dirs ≠ [] → ∀ most, w.maxDepth = some most → (d.depth : Int) + dirs.length ≤ most

/-- The files of the directory itself. -/
theorem finds_nil (hd : d.node = .dir true es) :
    w.Finds top root d [] name ↔
      ∃ n, (name, n) ∈ es ∧ top.IsFile (root.below d.path) name n ∧ w.wants name = true := by
  constructor
  · intro hfound
    obtain ⟨⟨n, hholds, hfile⟩, hwanted, _, _, _⟩ := hfound
    rw [hd, List.nil_append, Node.holds_dir_cons] at hholds
    obtain ⟨m, hmem, hm⟩ := hholds
    rw [Node.holds_nil.mp hm, List.append_nil] at hfile
    exact ⟨m, hmem, hfile, hwanted⟩
  · intro hfound
    obtain ⟨n, hmem, hfile, hwanted⟩ := hfound
    refine ⟨⟨n, ?_, ?_⟩, hwanted, ?_, ?_, ?_⟩
    · rw [hd]
      exact .entry hmem (.here n)
    · rw [List.append_nil]
      exact hfile
    · intro e he
      rw [List.prefix_nil.mp he, hd]
      exact ⟨es, .here _⟩
    · intro e x he
      exact absurd (List.prefix_nil.mp he) (by simp)
    · intro hne
      exact absurd rfl hne

theorem path_append_cons (d : Pending) (x : CodeString) (e : RelativePath) :
    d.path ++ [x] ++ e = d.path ++ x :: e := by
  rw [List.append_assoc, List.singleton_append]

/-- On the way to a file below a directory the walk enters the first directory and finds the rest of the
way there. -/
theorem Finds.step (hd : d.node = .dir true es) (hp : d.node.Proper)
    (hfinds : w.Finds top root d (x :: dirs) name) :
    ∃ m, (x, m) ∈ es ∧ m.isDir = true ∧ w.enters x (d.path ++ [x]) d.depth = true ∧
      w.Finds top root ⟨d.path ++ [x], d.depth + 1, m⟩ dirs name := by
  obtain ⟨⟨n, hholds, hfile⟩, hwanted, hlistable, hallowed, hshallow⟩ := hfinds
  rw [hd] at hp hholds hlistable
  obtain ⟨m, hmem, hholds⟩ := Node.holds_dir_cons.mp hholds
  -- The directory that can be listed is the one the file is in: there is one entry to a name.
  obtain ⟨ms, hms⟩ := hlistable [x] ⟨dirs, rfl⟩
  obtain ⟨m', hmem', hm'⟩ := Node.holds_dir_cons.mp hms
  obtain rfl : m = .dir true ms := (hp.entry_unique hmem hmem').trans (Node.holds_nil.mp hm').symm
  refine ⟨_, hmem, rfl, enters_iff.mpr ⟨?_, ?_⟩, ⟨n, hholds, ?_⟩, hwanted, ?_, ?_, ?_⟩
  · have hx := hallowed [] x ⟨dirs, rfl⟩
    rwa [List.append_nil] at hx
  · intro most hmost
    have hle := hshallow (List.cons_ne_nil _ _) most hmost
    rw [List.length_cons] at hle
    omega
  · rw [path_append_cons]
    exact hfile
  · intro e he
    obtain ⟨es', hes'⟩ := hlistable (x :: e) (List.cons_prefix_cons.mpr ⟨rfl, he⟩)
    obtain ⟨k, hk, hholdsk⟩ := Node.holds_dir_cons.mp hes'
    rw [hp.entry_unique hk hmem] at hholdsk
    exact ⟨es', hholdsk⟩
  · intro e y he
    rw [path_append_cons]
    exact hallowed (x :: e) y (List.cons_prefix_cons.mpr ⟨rfl, he⟩)
  · intro _ most hmost
    have hle := hshallow (List.cons_ne_nil _ _) most hmost
    rw [List.length_cons] at hle
    push_cast at hle ⊢
    omega

/-- What the walk finds in a directory that it enters it finds from the directory that holds it. -/
theorem Finds.of_step {m : Node} (hd : d.node = .dir true es) (hmem : (x, m) ∈ es)
    (henters : w.enters x (d.path ++ [x]) d.depth = true)
    (hfinds : w.Finds top root ⟨d.path ++ [x], d.depth + 1, m⟩ dirs name) :
    w.Finds top root d (x :: dirs) name := by
  obtain ⟨⟨n, hholds, hfile⟩, hwanted, hlistable, hallowed, hshallow⟩ := hfinds
  obtain ⟨hexcluded, hdepth⟩ := enters_iff.mp henters
  refine ⟨⟨n, ?_, ?_⟩, hwanted, ?_, ?_, ?_⟩
  · rw [hd]
    exact .entry hmem hholds
  · rw [← path_append_cons]
    exact hfile
  · intro e he
    rw [hd]
    rcases List.prefix_cons_iff.mp he with rfl | ⟨e', rfl, he'⟩
    · exact ⟨es, .here _⟩
    · obtain ⟨ks, hks⟩ := hlistable e' he'
      exact ⟨ks, .entry hmem hks⟩
  · intro e y he
    cases e with
    | nil =>
      obtain ⟨rfl, _⟩ := List.cons_prefix_cons.mp he
      rwa [List.append_nil]
    | cons z e =>
      obtain ⟨rfl, he'⟩ := List.cons_prefix_cons.mp he
      rw [← path_append_cons]
      exact hallowed e y he'
  · intro _ most hmost
    have hone := hdepth most hmost
    cases dirs with
    | nil => simpa using hone
    | cons y ys =>
      have hle := hshallow (List.cons_ne_nil _ _) most hmost
      simp only [List.length_cons] at hle ⊢
      push_cast at hle ⊢
      omega

/-- The recursion yields the paths that the walk finds, and no others. -/
theorem mem_filesBelow (hp : d.node.Proper) :
    p ∈ w.filesBelow top root d ↔
      ∃ dirs name, p = d.path ++ dirs ++ [name] ∧ w.Finds top root d dirs name := by
  induction d using filesBelow.induct w with
  | case1 d h =>
    rw [filesBelow_of_none h]
    constructor
    · intro hmem
      cases hmem
    · intro hfound
      obtain ⟨dirs, name, _, hfinds⟩ := hfound
      obtain ⟨es, hes⟩ := hfinds.listable [] List.nil_prefix
      rw [← Node.holds_nil.mp hes] at h
      cases h
  | case2 d entries h ih =>
    obtain ⟨es, hd, hentries⟩ := Node.listing?_eq_some.mp h
    have hmem : ∀ e, e ∈ entries ↔ e ∈ es := fun e => by
      rw [hentries, List.mem_mergeSort]
    rw [filesBelow_of_some h, List.mem_append, List.mem_flatMap, mem_filesAmong]
    constructor
    · intro hfound
      rcases hfound with ⟨name, n, hn, hfile, hwants, rfl⟩ | ⟨s, hs, hps⟩
      · exact ⟨[], name, by rw [List.append_nil], (finds_nil hd).mpr ⟨n, (hmem _).mp hn, hfile, hwants⟩⟩
      · obtain ⟨dirs, name, rfl, hfinds⟩ := (ih _ hs (proper_of_mem_dirsAmong hp h hs)).mp hps
        obtain ⟨x, m, hm, _, henters, rfl⟩ := mem_dirsAmong.mp hs
        refine ⟨x :: dirs, name, by simp, ?_⟩
        exact .of_step hd ((hmem _).mp hm) henters hfinds
    · intro hfound
      obtain ⟨dirs, name, rfl, hfinds⟩ := hfound
      cases dirs with
      | nil =>
        obtain ⟨n, hn, hfile, hwants⟩ := (finds_nil hd).mp hfinds
        exact Or.inl ⟨name, n, (hmem _).mpr hn, hfile, hwants, by rw [List.append_nil]⟩
      | cons x dirs =>
        obtain ⟨m, hm, hdir, henters, hfinds⟩ := hfinds.step hd hp
        have hs : (⟨d.path ++ [x], d.depth + 1, m⟩ : Pending) ∈ w.dirsAmong d entries :=
          mem_dirsAmong.mpr ⟨x, m, (hmem _).mpr hm, hdir, henters, rfl⟩
        refine Or.inr ⟨_, hs, (ih _ hs (proper_of_mem_dirsAmong hp h hs)).mpr ⟨dirs, name, ?_, hfinds⟩⟩
        rw [← path_append_cons]

/-- What a walk yields is what it finds from its root. -/
theorem mem_files (hp : top.Proper) : p ∈ w.files top root ↔
    ∃ start dirs name, top.at? root.place = some start ∧ p = dirs ++ [name] ∧
      w.Finds top root ⟨[], 0, start⟩ dirs name := by
  cases hstart : top.at? root.place with
  | none =>
    rw [files, hstart]
    simp only [List.not_mem_nil, reduceCtorEq, false_and, exists_false]
  | some start =>
    rw [files_eq_filesBelow w top root hstart, mem_filesBelow (hp.of_at? hstart)]
    simp only [List.nil_append, Option.some.injEq, exists_and_left, exists_eq_left']

end Walk

end SourceScan
