import SourceScan.Proofs.Walk.Restrict

/-!
# What a skipped entry keeps out

An entry to be skipped may be any string, a path of several names as well. A walk yields what it would yield with
nothing to skip, less the files that an entry keeps out (`files_skipping`). An entry keeps out the files that have a
directory of that name on their way, and those below the directory that the entry is the path of; but not the files
that lie in that directory itself, if the entry has more than one name (`yields_directlyIn`). For the path of a
directory does not begin with itself and a slash, and no file is asked about.
-/

namespace SourceScan

namespace RelativePath

variable {dirs p q : RelativePath} {name s x : CodeString} {X : List CodeString}

theorem text_append_cons (hp : p ≠ []) (x : CodeString) (q : RelativePath) :
    text (p ++ x :: q) = text p ++ FileName.slash :: text (x :: q) := by
  induction p with
  | nil => exact absurd rfl hp
  | cons y p ih =>
    cases p with
    | nil =>
      show List.intercalate _ _ = _
      rw [List.cons_append, List.nil_append, List.intercalate_cons_cons, text_singleton, List.append_assoc]
      rfl
    | cons z p =>
      have hrest := ih (List.cons_ne_nil z p)
      simp only [text, CodeString.join, List.cons_append, List.intercalate_cons_cons, List.append_assoc] at hrest ⊢
      rw [hrest]

theorem text_mono (h : p <+: q) : text p <+: text q := by
  obtain ⟨rest, rfl⟩ := h
  cases rest with
  | nil => exact ⟨[], by rw [List.append_nil, List.append_nil]⟩
  | cons x rest =>
    by_cases hp : p = []
    · rw [hp]
      exact List.nil_prefix
    · rw [text_append_cons hp]
      exact List.prefix_append _ _

/-- What the path of a file begins with up to a slash is the path of the directory that the file is in, or is what
this path begins with up to a slash. -/
theorem prefix_text_concat_iff (hdirs : dirs ≠ []) (hname : FileName.slash ∉ name) :
    s ++ [FileName.slash] <+: text (dirs ++ [name]) ↔ s = text dirs ∨ s ++ [FileName.slash] <+: text dirs := by
  rw [text_append_cons hdirs, text_singleton]
  constructor
  · intro ⟨rest, hrest⟩
    rw [List.append_assoc, List.singleton_append, List.append_eq_append_iff] at hrest
    rcases hrest with ⟨more, hmore, heq⟩ | ⟨more, hmore, heq⟩
    · cases more with
      | nil => exact Or.inl ((List.append_nil s).symm.trans hmore.symm)
      | cons c more =>
        obtain ⟨rfl, _⟩ := List.cons.inj heq
        exact Or.inr ⟨more, by rw [hmore, List.append_assoc, List.singleton_append]⟩
    · cases more with
      | nil => exact Or.inl (hmore.trans (List.append_nil _))
      | cons c more =>
        obtain ⟨_, hlater⟩ := List.cons.inj heq
        exact absurd (hlater ▸ List.mem_append_right more List.mem_cons_self) hname
  · intro h
    rcases h with rfl | h
    · exact ⟨name, by rw [List.append_assoc, List.singleton_append]⟩
    · exact h.trans (List.prefix_append _ _)

/-- No directory on the way to a file is excluded if and only if no entry is the name of one, and none begins the
path of the file up to a slash but the path of the directory that the file is in. -/
theorem forall_not_excluded_iff (hnames : ∀ x ∈ dirs ++ [name], FileName.slash ∉ x) :
    (∀ e x, e ++ [x] <+: dirs → isExcluded x (text (e ++ [x])) X = false) ↔
      ∀ s ∈ X, s ∉ dirs ∧ (s ++ [FileName.slash] <+: text (dirs ++ [name]) → s = text dirs) := by
  have hname : FileName.slash ∉ name := hnames name (by simp)
  have hfree : ∀ {e : RelativePath} {x : CodeString}, isExcluded x (text (e ++ [x])) X = false ↔
      x ∉ X ∧ ∀ s ∈ X, ¬s ++ [FileName.slash] <+: text (e ++ [x]) := by
    intro e x
    simp only [isExcluded, Bool.or_eq_false_iff, List.contains_eq_mem, decide_eq_false_iff_not, List.any_eq_false,
      List.isPrefixOf_iff_prefix]
  simp only [hfree]
  constructor
  · intro h s hs
    refine ⟨fun hmem => ?_, fun hbegins => ?_⟩
    · obtain ⟨e, rest, rfl⟩ := List.append_of_mem hmem
      exact (h e s ⟨rest, by rw [List.append_assoc, List.singleton_append]⟩).1 hs
    · rcases List.eq_nil_or_concat' dirs with rfl | ⟨e, x, rfl⟩
      · rw [List.nil_append, text_singleton] at hbegins
        exact absurd (hbegins.subset (List.mem_append_right s (List.mem_singleton_self _))) hname
      · -- The directory of the file is the last one asked about.
        have hlast := (h e x (List.prefix_refl _)).2 s hs
        exact ((prefix_text_concat_iff (by simp) hname).mp hbegins).resolve_right hlast
  · intro h e x he
    refine ⟨fun hx => (h x hx).1 (he.subset (by simp)), fun s hs hbegins => ?_⟩
    have hdirs : text (e ++ [x]) <+: text dirs := text_mono he
    have heq := (h s hs).2 ((hbegins.trans hdirs).trans (text_mono (List.prefix_append _ _)))
    have hlength := (hbegins.trans hdirs).length_le
    rw [heq, List.length_append, List.length_singleton] at hlength
    exact absurd hlength (Nat.not_succ_le_self _)

/-- A single name is not the path of the directory of a file, if it is not the name of that directory. -/
theorem slash_mem_of_eq_text (hs : s ∉ dirs) (hname : FileName.slash ∉ name) (heq : s = text dirs)
    (hbegins : s ++ [FileName.slash] <+: text (dirs ++ [name])) : FileName.slash ∈ s := by
  match dirs with
  | [] =>
    rw [List.nil_append, text_singleton] at hbegins
    exact absurd (hbegins.subset (List.mem_append_right s (List.mem_singleton_self _))) hname
  | [x] =>
    rw [text_singleton] at heq
    exact absurd (heq ▸ List.mem_singleton_self x) hs
  | x :: y :: rest =>
    rw [heq, ← List.singleton_append, text_append_cons (List.cons_ne_nil x []) y rest]
    simp

end RelativePath

namespace Walk

variable {w : Walk} {top : Node} {root : Door}

/-- **What skipping leaves.** For every tree and root, and whatever there is to skip: the walk yields, in the same
order, what it would yield with nothing to skip, less the files that an entry keeps out. An entry leaves a file in
if no directory on the way has it for a name and the path of the file does not begin with it and a slash, unless it
is the path of the directory that the file is in. So a path that begins with an entry and a slash is yielded only
if the entry has a slash in it and the file is right in the directory of that path. -/
theorem files_skipping (w : Walk) (top : Node) (root : Door) (hp : top.Proper) :
    (w.files top root = ((⟨w.extensions, [], w.maxDepth⟩ : Walk).files top root).filter fun p => ∀ s ∈ w.skip,
      s ∉ p.dropLast ∧ (s ++ [FileName.slash] <+: p.text → s = RelativePath.text p.dropLast)) ∧
    ∀ p ∈ w.files top root, ∀ s ∈ w.skip,
      s ∉ p.dropLast ∧ (s ++ [FileName.slash] <+: p.text →
        FileName.slash ∈ s ∧ s = RelativePath.text p.dropLast) := by
  have hfiles : w.files top root = ((⟨w.extensions, [], w.maxDepth⟩ : Walk).files top root).filter fun p =>
      ∀ s ∈ w.skip, s ∉ p.dropLast ∧
        (s ++ [FileName.slash] <+: p.text → s = RelativePath.text p.dropLast) := by
    refine files_eq_filter hp fun start dirs name hstart => ?_
    have hfinds : w.Finds top root ⟨[], 0, start⟩ dirs name ↔ _ :=
      finds_skip (w := ⟨w.extensions, [], w.maxDepth⟩) (X := w.skip)
    rw [hfinds]
    refine and_congr_right fun hfound => ?_
    have hnames := slash_not_mem_of_finds hp hstart hfound
    simp only [List.nil_append, RelativePath.forall_not_excluded_iff hnames, List.dropLast_concat, decide_eq_true_eq]
  refine ⟨hfiles, fun p hmem s hs => ?_⟩
  obtain ⟨start, dirs, name, hstart, rfl, hfound⟩ := (mem_files hp).mp hmem
  have hname := slash_not_mem_of_finds hp hstart hfound name (by simp)
  rw [hfiles, List.mem_filter, decide_eq_true_eq, List.dropLast_concat] at hmem
  obtain ⟨hdirs, heq⟩ := hmem.2 s hs
  rw [List.dropLast_concat]
  exact ⟨hdirs, fun hbegins =>
    ⟨RelativePath.slash_mem_of_eq_text hdirs hname (heq hbegins) hbegins, heq hbegins⟩⟩

theorem size_empty_lt : ByteArray.empty.size < Nat.pow 2 63 := by decide

/-- A directory in a directory, with a file in it and a file below it. -/
def twoDeep : Node :=
  let empty : Content := .open ⟨ByteArray.empty, size_empty_lt⟩
  .dir true [("a", .dir true [("b", .dir true [
    ("c.py", .file empty),
    ("d", .dir true [("e.py", .file empty)])])])]

theorem twoDeep_proper : twoDeep.Proper := by
  refine .single (by decide) (.single (by decide) (.dir (by decide) (by decide) fun e he => ?_))
  simp only [List.mem_cons, List.not_mem_nil, or_false] at he
  rcases he with rfl | rfl
  · exact .file _
  · exact .single (by decide) (.file _)

/-- The walk that is to skip the path of the inner directory. -/
def skippingPath : Walk := ⟨[".py"], ["a/b"], none⟩

/-- The file in that directory is yielded, though its path begins with the entry and a slash. -/
theorem yields_directlyIn :
    twoDeep.Proper ∧ ("a/b" : CodeString) ∈ skippingPath.skip ∧
      ("a/b" : CodeString) ++ [FileName.slash] <+: RelativePath.text [("a" : CodeString), "b", "c.py"] ∧
      skippingPath.files twoDeep .top = [[("a" : CodeString), "b", "c.py"]] := by
  refine ⟨twoDeep_proper, List.mem_singleton_self _, by decide, ?_⟩
  rw [files_eq_filesBelow _ _ _ rfl]
  refine (filesBelow_singleDir ..).trans ?_
  rw [if_pos (by decide), filesBelow_singleDir, if_pos (by decide), filesBelow_of_sorted]
  · rfl
  · decide

/-- The file below it is not. -/
theorem files_skipping_twoDeep :
    twoDeep.Proper ∧ ([("a" : CodeString), "b", "d", "e.py"] : RelativePath) ∉ skippingPath.files twoDeep .top := by
  refine ⟨twoDeep_proper, fun hmem => ?_⟩
  have hkept := (files_skipping skippingPath twoDeep .top twoDeep_proper).2 _ hmem "a/b" (List.mem_singleton_self _)
  exact absurd (hkept.2 (by decide)).2 (by decide)

end Walk

end SourceScan
