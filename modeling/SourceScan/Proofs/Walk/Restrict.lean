import Mathlib.Data.List.Nodup
import SourceScan.Proofs.Walk.Order

/-!
# Walks that enter less

A walk that passes over more directories, or that goes down less far, yields what the other walk yields
without the files that lie there, in the same order (`files_skip`, `files_maxDepth`). What it yields is
told by what it finds, and the order is that of every walk, so the two lists need only have the same
members (`files_eq_filter`).

A name without a slash is that of a directory on the way or of none: that a path begins with it and a slash
says nothing more (`mem_of_prefix_text`).
-/

namespace SourceScan

namespace FileName

/-- The names of the directories on the way to a file. -/
def dirs (path : CodeString) : List CodeString := (components path).dropLast

/-- A path has one piece more than it has slashes. -/
theorem length_components (path : CodeString) :
    (components path).length = path.count slash + 1 := by
  induction path with
  | nil => rfl
  | cons c path ih =>
    rw [components, List.splitOnP_cons_eq_if_modifyHead, List.count_cons]
    split
    · rw [List.length_cons, ← components, ih]
    · rw [List.length_modifyHead, ← components, ih, Nat.add_zero]

end FileName

namespace RelativePath

variable {e dirs p : RelativePath} {name s : CodeString} {X : List CodeString}

theorem dirs_text (h : ∀ x ∈ dirs ++ [name], FileName.slash ∉ x) :
    FileName.dirs (text (dirs ++ [name])) = dirs := by
  rw [FileName.dirs, components_text (by simp) h, List.dropLast_concat]

theorem count_slash_text (h : ∀ x ∈ dirs ++ [name], FileName.slash ∉ x) :
    (text (dirs ++ [name])).count FileName.slash = dirs.length := by
  have hlength := FileName.length_components (text (dirs ++ [name]))
  rw [components_text (by simp) h, List.length_append] at hlength
  exact (Nat.succ.inj hlength).symm

/-- What a path begins with, up to a slash, is a name on it. -/
theorem mem_of_prefix_text (hp : p ≠ []) (hnames : ∀ x ∈ p, FileName.slash ∉ x) (hs : FileName.slash ∉ s)
    (h : s ++ [FileName.slash] <+: p.text) : s ∈ p := by
  obtain ⟨rest, hrest⟩ := h
  have hsplit : FileName.components s = [s] := by
    refine List.splitOnP_eq_singleton fun c hc => ?_
    rw [beq_eq_false_iff_ne]
    rintro rfl
    exact hs hc
  rw [← components_text hp hnames, ← hrest, List.append_assoc, List.singleton_append,
    FileName.components_append_slash, hsplit]
  exact List.mem_append_left _ (List.mem_singleton_self s)

end RelativePath

theorem isExcluded_append (name relative : CodeString) (skip more : List CodeString) :
    isExcluded name relative (skip ++ more) =
      (isExcluded name relative skip || isExcluded name relative more) := by
  simp only [isExcluded, List.contains_append, List.any_append]
  ac_rfl

/-- Names without slashes exclude the directories of these names and what is in them, and nothing else. -/
theorem forall_isExcluded_iff {X : List CodeString} {dirs : RelativePath}
    (hX : ∀ s ∈ X, FileName.slash ∉ s) (hnames : ∀ x ∈ dirs, FileName.slash ∉ x) :
    (∀ e x, e ++ [x] <+: dirs → isExcluded x (RelativePath.text (e ++ [x])) X = false) ↔
      ∀ x ∈ dirs, x ∉ X := by
  constructor
  · intro h x hx hmem
    obtain ⟨e, rest, rfl⟩ := List.append_of_mem hx
    have hfree := h e x ⟨rest, by rw [List.append_assoc, List.singleton_append]⟩
    rw [isExcluded, Bool.or_eq_false_iff, List.contains_eq_mem, decide_eq_false_iff_not] at hfree
    exact hfree.1 hmem
  · intro h e x he
    rw [isExcluded, Bool.or_eq_false_iff, List.contains_eq_mem, decide_eq_false_iff_not]
    refine ⟨h x (he.subset (by simp)), List.any_eq_false.mpr fun s hs hprefix => ?_⟩
    have hmem := RelativePath.mem_of_prefix_text (by simp) (fun y hy => hnames y (he.subset hy)) (hX s hs)
      (List.isPrefixOf_iff_prefix.mp hprefix)
    exact h s (he.subset hmem) hs

namespace Walk

variable {w w' : Walk} {top : Node} {root : Door} {d : Pending} {dirs p : RelativePath}
  {name : CodeString} {X : List CodeString}

/-- A walk that finds what another finds but for some yields it in the same order. -/
theorem files_eq_filter {keep : RelativePath → Bool} (hp : top.Proper)
    (h : ∀ start dirs name, top.at? root.place = some start →
      (w'.Finds top root ⟨[], 0, start⟩ dirs name ↔
        w.Finds top root ⟨[], 0, start⟩ dirs name ∧ keep (dirs ++ [name]) = true)) :
    w'.files top root = (w.files top root).filter keep := by
  have hless := pairwise_precedes w' top root hp
  have hmore := (pairwise_precedes w top root hp).filter keep
  refine @List.Perm.eq_of_pairwise _ Precedes _ _ ?_ hless hmore ?_
  · intro p q _ _ hpq hqp
    exact absurd hqp hpq.asymm
  · refine (List.perm_ext_iff_of_nodup (hless.imp Precedes.ne) (hmore.imp Precedes.ne)).mpr fun p => ?_
    rw [List.mem_filter, mem_files hp, mem_files hp]
    constructor
    · intro ⟨start, dirs, name, hstart, hpath, hfinds⟩
      obtain ⟨hfinds, hkeep⟩ := (h start dirs name hstart).mp hfinds
      rw [← hpath] at hkeep
      exact ⟨⟨start, dirs, name, hstart, hpath, hfinds⟩, hkeep⟩
    · intro ⟨⟨start, dirs, name, hstart, hpath, hfinds⟩, hkeep⟩
      rw [hpath] at hkeep
      exact ⟨start, dirs, name, hstart, hpath, (h start dirs name hstart).mpr ⟨hfinds, hkeep⟩⟩

/-- The names on the way to what is found hold no slash. -/
theorem slash_not_mem_of_finds {start : Node} (hp : top.Proper) (hstart : top.at? root.place = some start)
    (h : w.Finds top root ⟨[], 0, start⟩ dirs name) : ∀ x ∈ dirs ++ [name], FileName.slash ∉ x := by
  intro x hx
  obtain ⟨n, hholds, _⟩ := h.file
  exact FileName.slash_not_mem ((hp.of_at? hstart).names_of_holds hholds x hx)

/-! ## More directories to pass over -/

theorem finds_skip : (⟨w.extensions, w.skip ++ X, w.maxDepth⟩ : Walk).Finds top root d dirs name ↔
    w.Finds top root d dirs name ∧ ∀ e x, e ++ [x] <+: dirs →
      isExcluded x (RelativePath.text (d.path ++ e ++ [x])) X = false := by
  constructor
  · intro h
    have hallowed := fun e x he => Bool.or_eq_false_iff.mp
      ((isExcluded_append x _ w.skip X).symm.trans (h.allowed e x he))
    exact ⟨⟨h.file, h.wanted, h.listable, fun e x he => (hallowed e x he).1, h.shallow⟩,
      fun e x he => (hallowed e x he).2⟩
  · intro ⟨h, hmore⟩
    refine ⟨h.file, h.wanted, h.listable, fun e x he => ?_, h.shallow⟩
    rw [isExcluded_append, h.allowed e x he, hmore e x he]
    rfl

/-- With more names to pass over, a walk yields the files that have none of them on the way. -/
theorem files_skip (w : Walk) (root : Door) (hp : top.Proper) (hX : ∀ s ∈ X, FileName.slash ∉ s) :
    (⟨w.extensions, w.skip ++ X, w.maxDepth⟩ : Walk).files top root =
      (w.files top root).filter fun p => !(FileName.dirs p.text).any X.contains := by
  refine files_eq_filter hp fun start dirs name hstart => ?_
  rw [finds_skip]
  refine and_congr_right fun hfinds => ?_
  have hnames := slash_not_mem_of_finds hp hstart hfinds
  have hiff := forall_isExcluded_iff hX fun x hx => hnames x (List.mem_append_left _ hx)
  simp only [List.nil_append, RelativePath.dirs_text hnames, Bool.not_eq_true', List.any_eq_false,
    List.contains_eq_mem, decide_eq_true_eq]
  exact hiff

/-! ## Fewer levels -/

theorem finds_maxDepth {start : Node} {most : Nat} (h : w.maxDepth = none) :
    (⟨w.extensions, w.skip, some most⟩ : Walk).Finds top root ⟨[], 0, start⟩ dirs name ↔
      w.Finds top root ⟨[], 0, start⟩ dirs name ∧ dirs.length ≤ most := by
  constructor
  · intro hfinds
    refine ⟨⟨hfinds.file, hfinds.wanted, hfinds.listable, hfinds.allowed, fun _ most' hmost => ?_⟩, ?_⟩
    · rw [h] at hmost
      cases hmost
    · cases dirs with
      | nil => exact Nat.zero_le most
      | cons x dirs =>
        have hle := hfinds.shallow (List.cons_ne_nil x dirs) most rfl
        push_cast at hle
        omega
  · intro ⟨hfinds, hle⟩
    refine ⟨hfinds.file, hfinds.wanted, hfinds.listable, hfinds.allowed, fun _ most' hmost => ?_⟩
    obtain rfl : (most : Int) = most' := Option.some.inj hmost
    push_cast
    omega

/-- A walk that goes down so many levels yields the files with no more slashes in their paths. -/
theorem files_maxDepth (w : Walk) (root : Door) (hp : top.Proper) (h : w.maxDepth = none) (most : Nat) :
    (⟨w.extensions, w.skip, some most⟩ : Walk).files top root =
      (w.files top root).filter fun p => !decide (most < p.text.count FileName.slash) := by
  refine files_eq_filter hp fun start dirs name hstart => ?_
  rw [finds_maxDepth h]
  refine and_congr_right fun hfinds => ?_
  rw [RelativePath.count_slash_text (slash_not_mem_of_finds hp hstart hfinds), Bool.not_eq_true',
    decide_eq_false_iff_not, Nat.not_lt]

end Walk

end SourceScan
