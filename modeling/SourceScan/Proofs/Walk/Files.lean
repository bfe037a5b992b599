import SourceScan.Proofs.Tree.Follow
import SourceScan.Proofs.Walk.Order

/-!
# The files of a walk

The two laws of the walk as a whole. `files_sound_complete`: it yields each path once, and exactly the
paths that lead to a file by directories that it enters. `files_order`: it yields what the recursion
yields, and of two paths the names in which they first differ say which comes first.

The trees are those that a disk can hold, with links of every kind, directories that cannot be listed and
any depth; what is looked for is arbitrary.
-/

namespace SourceScan.Walk

variable {w : Walk} {top start : Node} {root : Door} {p q : RelativePath}

/-- What the walk finds from its root, without the words of the recursion. -/
theorem finds_root {dirs : RelativePath} {name : CodeString} :
    w.Finds top root ⟨[], 0, start⟩ dirs name ↔
      (∃ n, start.Holds (dirs ++ [name]) n ∧ top.IsFile (root.below dirs) name n) ∧
        (FileName.suffix name).lower ∈ w.extensions ∧
        (∀ d, d <+: dirs → ∃ entries, start.Holds d (.dir true entries)) ∧
        (∀ d x, d ++ [x] <+: dirs → isExcluded x (RelativePath.text (d ++ [x])) w.skip = false) ∧
        ∀ most, w.maxDepth = some most → (dirs.length : Int) ≤ max most 0 := by
  have hdepth : (dirs ≠ [] → ∀ most, w.maxDepth = some most → ((0 : Nat) : Int) + dirs.length ≤ most) ↔
      ∀ most, w.maxDepth = some most → (dirs.length : Int) ≤ max most 0 := by
    cases dirs with
    | nil =>
      constructor
      · intro _ most _
        exact Int.le_max_right most 0
      · intro _ hne
        exact absurd rfl hne
    | cons x dirs =>
      simp only [ne_eq, List.cons_ne_nil, not_false_eq_true, forall_const, List.length_cons]
      refine forall_congr' fun most => imp_congr_right fun _ => ?_
      omega
  constructor
  · intro hfound
    obtain ⟨hfile, hwanted, hlistable, hallowed, hshallow⟩ := hfound
    exact ⟨hfile, List.contains_iff_mem.mp hwanted, hlistable, hallowed, hdepth.mp hshallow⟩
  · intro hfound
    obtain ⟨hfile, hwanted, hlistable, hallowed, hshallow⟩ := hfound
    exact ⟨hfile, List.contains_iff_mem.mpr hwanted, hlistable, hallowed, hdepth.mpr hshallow⟩

/-- What a walk of a proper tree yields are paths of proper names. -/
theorem names_of_mem_files (hp : top.Proper) (h : p ∈ w.files top root) :
    p ≠ [] ∧ ∀ name ∈ p, FileName.isProper name = true := by
  obtain ⟨start, dirs, name, hstart, rfl, hfinds⟩ := (mem_files hp).mp h
  obtain ⟨n, hholds, _⟩ := hfinds.file
  exact ⟨by simp, (hp.of_at? hstart).names_of_holds hholds⟩

/-- The texts of the paths that a walk yields are all different. -/
theorem nodup_text (w : Walk) (root : Door) (hp : top.Proper) :
    ((w.files top root).map RelativePath.text).Nodup := by
  refine List.pairwise_map.mpr ((pairwise_precedes w top root hp).imp_of_mem ?_)
  intro p q hpm hqm hprecedes htext
  obtain ⟨hpne, hpn⟩ := names_of_mem_files hp hpm
  obtain ⟨hqne, hqn⟩ := names_of_mem_files hp hqm
  exact hprecedes.ne (RelativePath.eq_of_text_eq hpne hqne hpn hqn htext)

/-- **The walk is sound and complete.** No path is yielded twice. A path is yielded exactly if its last
name is that of a file, or of a link that leads to one, with a wanted extension; the directories on the
way, the root among them, are directories of their own and can be listed; none of those below the root is
excluded; and there are no more of these than the walk may go down. Where there is no directory at the
root nothing is yielded. -/
theorem files_sound_complete (w : Walk) (top : Node) (root : Door) (hp : top.Proper) :
    ((w.files top root).map RelativePath.text).Nodup ∧
      (∀ p, p ∈ w.files top root ↔
        ∃ start dirs name, top.at? root.place = some start ∧ p = dirs ++ [name] ∧
          (∃ n, start.Holds p n ∧ top.IsFile (root.below dirs) name n) ∧
          (FileName.suffix name).lower ∈ w.extensions ∧
          (∀ d, d <+: dirs → ∃ entries, start.Holds d (.dir true entries)) ∧
          (∀ d x, d ++ [x] <+: dirs → isExcluded x (RelativePath.text (d ++ [x])) w.skip = false) ∧
          ∀ most, w.maxDepth = some most → (dirs.length : Int) ≤ max most 0) ∧
      ((∀ n, top.at? root.place = some n → n.isDir = false) → w.files top root = []) := by
  refine ⟨nodup_text w root hp, fun p => ⟨fun h => ?_, ?_⟩, fun h => ?_⟩
  · obtain ⟨start, dirs, name, hstart, rfl, hfinds⟩ := (mem_files hp).mp h
    exact ⟨start, dirs, name, hstart, rfl, finds_root.mp hfinds⟩
  · intro hfound
    obtain ⟨start, dirs, name, hstart, rfl, hfinds⟩ := hfound
    rw [files_eq_filesBelow w top root hstart, mem_filesBelow (hp.of_at? hstart)]
    exact ⟨dirs, name, rfl, finds_root.mpr hfinds⟩
  · cases hstart : top.at? root.place with
    | none => rw [files, hstart]
    | some n =>
      rw [files, hstart]
      exact if_neg (by rw [h n hstart]; exact Bool.false_ne_true)

/-- A file, a link to a file further down, a directory, and one that cannot be listed. -/
def sample : Node :=
  let empty : Content := .open ⟨ByteArray.empty, by decide⟩
  .dir true [
    ("b.py", .file empty),
    ("l.py", .link "a/c.py"),
    ("a", .dir true [("c.py", .file empty)]),
    ("shut", .dir false [("d.py", .file empty)])]

theorem sample_proper : sample.Proper := by
  refine .dir (by decide) (by decide) fun e he => ?_
  simp only [List.mem_cons, List.not_mem_nil, or_false] at he
  rcases he with rfl | rfl | rfl | rfl
  · exact .file _
  · exact .link _
  · exact .single (by decide) (.file _)
  · exact .single (by decide) (.file _)

/-- The link of the sample leads to the file in the directory. -/
theorem open?_sample (links : Nat) :
    sample.open? ⟨[], links + 1⟩ "l.py" = some (.file (.open ⟨ByteArray.empty, by decide⟩)) := by
  have htop : sample.at? [] = some sample := rfl
  have hlink : sample.at? ([] ++ [("l.py" : CodeString)]) = some (.link "a/c.py") := rfl
  have hdir : sample.at? ([] ++ [("a" : CodeString)]) =
      some (.dir true [("c.py", .file (.open ⟨ByteArray.empty, by decide⟩))]) := rfl
  have hfile : sample.at? ([] ++ [("a" : CodeString)] ++ [("c.py" : CodeString)]) =
      some (.file (.open ⟨ByteArray.empty, by decide⟩)) := rfl
  have hsteps : Path.steps "a/c.py" = [("a" : CodeString), "c.py"] := by decide
  rw [Node.open?, Node.follow_name sample _ (by decide), Node.followSteps_cons htop (by decide), hlink]
  dsimp only
  rw [if_neg (by decide), hsteps, List.append_nil, Node.followSteps_enter htop (by decide) hdir (by simp),
    Node.followSteps_enter hdir (by decide) hfile (by simp), Node.followSteps]
  exact hfile

/-- The link of the sample is yielded, though nothing may be entered: it leads to a file. -/
theorem files_sound_complete_sample :
    sample.Proper ∧ [("l.py" : CodeString)] ∈ (⟨[".py"], [], some (-1)⟩ : Walk).files sample .top := by
  refine ⟨sample_proper, ((files_sound_complete ⟨[".py"], [], some (-1)⟩ sample .top
    sample_proper).2.1 _).mpr ⟨sample, [], "l.py", rfl, rfl, ?_, by decide, ?_, ?_, ?_⟩⟩
  · exact ⟨.link "a/c.py", .entry (by simp) (.here _), Or.inr ⟨_, _, rfl, open?_sample 39⟩⟩
  · intro d hd
    rw [List.prefix_nil.mp hd]
    exact ⟨_, .here _⟩
  · intro d x hd
    exact absurd (List.prefix_nil.mp hd) (by simp)
  · rintro most ⟨⟩
    decide

/-- Of two members of a list one comes before the other. -/
theorem pair_sublist_or {α : Type} {l : List α} {a b : α} (ha : a ∈ l) (hb : b ∈ l) (hne : a ≠ b) :
    [a, b].Sublist l ∨ [b, a].Sublist l := by
  induction l with
  | nil => cases ha
  | cons c l ih =>
    rcases List.mem_cons.mp ha with rfl | hal
    · have hbl := (List.mem_cons.mp hb).resolve_left hne.symm
      exact Or.inl (.cons_cons _ (List.singleton_sublist.mpr hbl))
    · rcases List.mem_cons.mp hb with rfl | hbl
      · exact Or.inr (.cons_cons _ (List.singleton_sublist.mpr hal))
      · exact (ih hal hbl).imp (.cons c) (.cons c)

/-- **The order of the walk.** Whatever lies on the stack, the loop yields what the recursion yields
from it, and so does the walk as a whole; and of two different paths that the walk yields, the first
comes before the second exactly if it precedes it. -/
theorem files_order (w : Walk) (top : Node) (root : Door) (hp : top.Proper) :
    (∀ stack, w.filesFrom top root stack = stack.flatMap (w.filesBelow top root)) ∧
      (∀ n, top.at? root.place = some n →
        w.files top root = w.filesBelow top root ⟨[], 0, n⟩) ∧
      ∀ p ∈ w.files top root, ∀ q ∈ w.files top root, p ≠ q →
        ([p, q].Sublist (w.files top root) ↔ Precedes p q) := by
  have hordered := pairwise_precedes w top root hp
  refine ⟨filesFrom_eq_flatMap w top root, fun n => files_eq_filesBelow w top root, ?_⟩
  intro p hpm q hqm hne
  constructor
  · intro hpq
    exact hordered.forall_sublist hpq
  · intro hprecedes
    exact (pair_sublist_or hpm hqm hne).resolve_right fun hqp =>
      hprecedes.asymm (hordered.forall_sublist hqp)

/-- A walk that wants the three files of the sample and enters the directory yields them. -/
theorem files_sample (w : Walk) (hwants : ∀ name ∈ [("b.py" : CodeString), "l.py", "c.py"], w.wants name = true)
    (henters : w.enters "a" ["a"] 0 = true) :
    w.files sample .top =
      [[("b.py" : CodeString)], [("l.py" : CodeString)], [("a" : CodeString), "c.py"]] := by
  let empty : Content := .open ⟨ByteArray.empty, by decide⟩
  let entries : List Entry := [("a", .dir true [("c.py", .file empty)]), ("b.py", .file empty),
    ("l.py", .link "a/c.py"), ("shut", .dir false [("d.py", .file empty)])]
  have hlisting : sample.listing? = some entries :=
    listing?_of_perm sample_proper ((List.Perm.swap _ _ _).trans (.cons _ (.swap _ _ _))) (by decide)
  have hlink : sample.isFileAt (Door.top.below []) "l.py" (.link "a/c.py") = true :=
    Node.isFileAt_iff.mpr (Or.inr ⟨_, _, rfl, open?_sample 39⟩)
  have hfiles : w.filesAmong sample .top [] entries = [[("b.py" : CodeString)], [("l.py" : CodeString)]] := by
    simp only [entries, filesAmong_cons, hlink, hwants _ (.head _), hwants _ (.tail _ (.head _))]
    rfl
  have hdirs : w.dirsAmong ⟨[], 0, sample⟩ entries = ⟨["a"], 1, .dir true [("c.py", .file empty)]⟩ ::
      if w.enters "shut" ["shut"] 0 then [⟨["shut"], 1, .dir false [("d.py", .file empty)]⟩] else [] := by
    simp only [entries, dirsAmong_cons, List.nil_append, henters]
    cases w.enters "shut" ["shut"] 0 <;> rfl
  rw [files_eq_filesBelow w sample .top rfl, filesBelow_of_some hlisting, hfiles, hdirs, List.flatMap_cons,
    filesBelow_singleFile, if_pos (hwants _ (.tail _ (.tail _ (.head _))))]
  -- The directory that cannot be listed shows nothing, entered or not.
  split
  · rw [List.flatMap_singleton, filesBelow_of_none rfl]
    rfl
  · rfl

/-- The directory of the sample has the smallest name, and the link comes before what is in it. -/
theorem files_order_sample :
    sample.Proper ∧ [("l.py" : CodeString)] ∈ (⟨[".py"], [], none⟩ : Walk).files sample .top ∧
      [("a" : CodeString), "c.py"] ∈ (⟨[".py"], [], none⟩ : Walk).files sample .top ∧
      [[("l.py" : CodeString)], [("a" : CodeString), "c.py"]].Sublist
        ((⟨[".py"], [], none⟩ : Walk).files sample .top) := by
  have hl : [("l.py" : CodeString)] ∈ (⟨[".py"], [], none⟩ : Walk).files sample .top := by
    rw [files_sample _ (by decide) (by decide)]
    exact .tail _ (.head _)
  have hc : [("a" : CodeString), "c.py"] ∈ (⟨[".py"], [], none⟩ : Walk).files sample .top := by
    rw [files_sample _ (by decide) (by decide)]
    exact .tail _ (.tail _ (.head _))
  refine ⟨sample_proper, hl, hc, ?_⟩
  exact ((files_order ⟨[".py"], [], none⟩ sample .top sample_proper).2.2 _ hl _ hc
    (by simp)).mpr (.file (by decide))

end SourceScan.Walk
