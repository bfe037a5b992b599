import SourceScan.Proofs.Text.CodeOrder
import SourceScan.Proofs.Walk.Members

/-!
# The order of the walk

`Walk.Precedes` is the order in which paths are yielded, read off the paths alone: the first names in
which two paths differ decide, and there a file comes before a directory, and of two files or two
directories the one of the smaller name. `pairwise_precedes` says that the walk yields in this order. The
order has no two paths level and never goes back on itself (`Precedes.asymm`), so it tells all: no path is
yielded twice, and of two that are yielded the order says which comes first.
-/

namespace SourceScan.Walk

/-- The order of the walk: at the first names in which they differ, `p` has its file where `q` has a
directory, or both have a file or both a directory and that of `p` has the smaller name. -/
inductive Precedes : RelativePath → RelativePath → Prop
  | file {a b c : CodeString} {q : RelativePath} : a ≠ b → Precedes [a] (b :: c :: q)
  | name {a b : CodeString} {p q : RelativePath} : (p = [] ↔ q = []) → a.codes < b.codes →
      Precedes (a :: p) (b :: q)
  | deeper {a : CodeString} {p q : RelativePath} : Precedes p q → Precedes (a :: p) (a :: q)

namespace Precedes

variable {p q : RelativePath}

theorem append_left (here : RelativePath) (h : Precedes p q) : Precedes (here ++ p) (here ++ q) := by
  induction here with
  | nil => exact h
  | cons a here ih => exact .deeper ih

theorem asymm (h : Precedes p q) : ¬ Precedes q p := by
  induction h with
  | file hne =>
    intro hback
    cases hback with
    | name hiff _ => exact absurd (hiff.mpr rfl) (List.cons_ne_nil _ _)
    | deeper => exact hne rfl
  | name hiff hlt =>
    intro hback
    cases hback with
    | file => exact absurd (hiff.mpr rfl) (List.cons_ne_nil _ _)
    | name _ hlt' => exact List.lt_asymm hlt hlt'
    | deeper => exact List.lt_irrefl _ hlt
  | deeper _ ih =>
    intro hback
    cases hback with
    | file hne => exact hne rfl
    | name _ hlt => exact List.lt_irrefl _ hlt
    | deeper hback => exact ih hback

theorem ne (h : Precedes p q) : p ≠ q := by
  intro heq
  rw [heq] at h
  exact h.asymm h

end Precedes

variable {w : Walk} {top n : Node} {root : Door} {d : Pending} {entries : List Entry}
  {p q : RelativePath}

/-- The entries of a listing are in the order of their names, and no two names are level. -/
theorem listing_sorted (hp : n.Proper) (h : n.listing? = some entries) :
    entries.Pairwise fun a b => a.1.codes < b.1.codes := by
  obtain ⟨es, rfl, rfl⟩ := Node.listing?_eq_some.mp h
  have hsorted : (es.mergeSort fun a b => a.1.le b.1).Pairwise fun a b => a.1.le b.1 = true :=
    List.pairwise_mergeSort (fun a b c => CodeString.le_trans a.1 b.1 c.1)
      (fun a b => CodeString.le_total a.1 b.1) es
  have hdistinct := List.pairwise_map.mp
    (((List.mergeSort_perm es fun a b => a.1.le b.1).map (·.1)).nodup_iff.mpr hp.distinct)
  exact (hsorted.and hdistinct).imp fun hab => CodeString.codes_lt_of_le hab.1 hab.2

/-- The listing of a directory are its entries in the order of their names. -/
theorem listing?_of_perm {es : List Entry} (hp : (Node.dir true es).Proper) (hperm : entries.Perm es)
    (hsorted : entries.Pairwise fun a b => a.1.codes < b.1.codes) :
    (Node.dir true es).listing? = some entries := by
  have hlisting : (Node.dir true es).listing? = some (es.mergeSort fun a b => a.1.le b.1) := rfl
  have hsame := (List.mergeSort_perm es fun a b => a.1.le b.1).trans hperm.symm
  rw [hlisting, hsame.eq_of_pairwise ?_ (listing_sorted hp hlisting) hsorted]
  intro a b _ _ hab hba
  exact absurd hba (List.lt_asymm hab)

/-- The files among the entries of a directory are yielded in the order of their names. -/
theorem pairwise_filesAmong (here : RelativePath)
    (hsorted : entries.Pairwise fun a b => a.1.codes < b.1.codes) :
    (w.filesAmong top root here entries).Pairwise Precedes := by
  refine List.pairwise_filterMap.mpr (hsorted.imp ?_)
  intro a b hlt p hp q hq
  dsimp only at hp hq
  split at hp <;> cases hp
  split at hq <;> cases hq
  exact .append_left here (.name Iff.rfl hlt)

/-- The directories among the entries of a directory are entered in the order of their names. -/
theorem pairwise_dirsAmong (d : Pending)
    (hsorted : entries.Pairwise fun a b => a.1.codes < b.1.codes) :
    (w.dirsAmong d entries).Pairwise fun s t =>
      ∃ a b, a.codes < b.codes ∧ s.path = d.path ++ [a] ∧ t.path = d.path ++ [b] := by
  refine List.pairwise_filterMap.mpr (hsorted.imp ?_)
  intro a b hlt s hs t ht
  dsimp only at hs ht
  split at hs <;> cases hs
  split at ht <;> cases ht
  exact ⟨a.1, b.1, hlt, rfl, rfl⟩

/-- What is yielded below a directory goes on from its path. -/
theorem eq_append_of_mem_filesBelow (hp : d.node.Proper) (h : p ∈ w.filesBelow top root d) :
    ∃ rest, rest ≠ [] ∧ p = d.path ++ rest := by
  obtain ⟨dirs, name, rfl, _⟩ := (mem_filesBelow hp).mp h
  exact ⟨dirs ++ [name], by simp, List.append_assoc ..⟩

/-- A file of a directory is yielded before what is below a directory in it: an entry is not both. -/
theorem precedes_of_file_of_dir (hp : d.node.Proper) (h : d.node.listing? = some entries)
    (hpm : p ∈ w.filesAmong top root d.path entries) {s : Pending} (hs : s ∈ w.dirsAmong d entries)
    (hqm : q ∈ w.filesBelow top root s) : Precedes p q := by
  obtain ⟨q', hq', rfl⟩ := eq_append_of_mem_filesBelow (proper_of_mem_dirsAmong hp h hs) hqm
  obtain ⟨c, q'', rfl⟩ := List.exists_cons_of_ne_nil hq'
  obtain ⟨es, hd, rfl⟩ := Node.listing?_eq_some.mp h
  obtain ⟨a, m, ha, hfile, _, rfl⟩ := mem_filesAmong.mp hpm
  obtain ⟨b, k, hb, hdir, _, rfl⟩ := mem_dirsAmong.mp hs
  rw [List.append_assoc]
  refine .append_left _ (.file fun hab => ?_)
  rw [hd] at hp
  subst hab
  rw [← hp.entry_unique (List.mem_mergeSort.mp ha) (List.mem_mergeSort.mp hb), hfile.isDir_eq] at hdir
  cases hdir

/-- The files below a directory are yielded in the order of the walk. -/
theorem pairwise_precedes_filesBelow (w : Walk) (top : Node) (root : Door) (hp : d.node.Proper) :
    (w.filesBelow top root d).Pairwise Precedes := by
  induction d using filesBelow.induct w with
  | case1 d h =>
    rw [filesBelow_of_none h]
    exact .nil
  | case2 d entries h ih =>
    have hsorted := listing_sorted hp h
    have hproper : ∀ s ∈ w.dirsAmong d entries, s.node.Proper := fun s =>
      proper_of_mem_dirsAmong hp h
    rw [filesBelow_of_some h]
    refine List.pairwise_append.mpr ⟨pairwise_filesAmong d.path hsorted, ?_, fun p hpm q hqm => ?_⟩
    · refine List.pairwise_flatMap.mpr ⟨fun s hs => ih s hs (hproper s hs), ?_⟩
      refine (pairwise_dirsAmong d hsorted).imp_of_mem ?_
      intro s t hs ht hnames p hpm q hqm
      obtain ⟨a, b, hlt, hsp, htp⟩ := hnames
      obtain ⟨p', hp', rfl⟩ := eq_append_of_mem_filesBelow (hproper s hs) hpm
      obtain ⟨q', hq', rfl⟩ := eq_append_of_mem_filesBelow (hproper t ht) hqm
      rw [hsp, htp, List.append_assoc, List.append_assoc]
      exact .append_left _ (.name (iff_of_false hp' hq') hlt)
    · obtain ⟨s, hs, hqs⟩ := List.mem_flatMap.mp hqm
      exact precedes_of_file_of_dir hp h hpm hs hqs

/-- The walk yields in its order. -/
theorem pairwise_precedes (w : Walk) (top : Node) (root : Door) (hp : top.Proper) :
    (w.files top root).Pairwise Precedes := by
  cases h : top.at? root.place with
  | none =>
    rw [files, h]
    exact .nil
  | some n =>
    rw [files_eq_filesBelow w top root h]
    exact pairwise_precedes_filesBelow w top root (hp.of_at? h)

end SourceScan.Walk
