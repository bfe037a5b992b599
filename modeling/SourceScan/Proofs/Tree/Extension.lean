import SourceScan.Proofs.Text.LowerForms
import SourceScan.Proofs.Tree.Follow
import SourceScan.Proofs.Walk.Skipped

/-!
# Two readings of an extension

`FileName.suffix` reads the extension of a name, `FileName.extension` that of a whole path, and a path may be read
before it is written in lower case or after. For a path of proper names the first is the suffix of the last name
(`suffix_text`), and the second reads a lower-case form of that name alone (`exists_extension_text`), whatever dots
and letters the directories have. What the two make of a name differs in its dots: a name that begins with a dot and
goes on with dots only has a suffix (`suffix_append`) and no extension (`extension_append`), and a dot at the end is
an extension and no suffix.
-/

namespace SourceScan

namespace FileName

open CodeString (Lowers)

variable {name path before tail : CodeString} {mark : CodePoint}

/-! ## The last mark of a string -/

/-- A string with a mark in it is cut at the last one. -/
theorem exists_last (h : mark ∈ name) : ∃ before tail, name = before ++ mark :: tail ∧ mark ∉ tail := by
  obtain ⟨tail, before, hname, hfirst⟩ := List.eq_append_cons_of_mem (List.mem_reverse.mpr h)
  refine ⟨before.reverse, tail.reverse, ?_, fun hmem => hfirst (List.mem_reverse.mp hmem)⟩
  rw [← List.reverse_reverse name, hname, List.reverse_append, List.reverse_cons, List.append_assoc,
    List.singleton_append]

theorem all_ne_of_not_mem (h : mark ∉ tail) : ∀ p ∈ tail.reverse, (p != mark) = true := by
  intro p hp
  rw [bne_iff_ne]
  rintro rfl
  exact h (List.mem_reverse.mp hp)

theorem takeWhile_reverse (h : mark ∉ tail) (before : CodeString) :
    (before ++ mark :: tail).reverse.takeWhile (· != mark) = tail.reverse := by
  rw [List.reverse_append, List.reverse_cons, List.append_assoc, List.takeWhile_append_of_pos (all_ne_of_not_mem h),
    List.singleton_append, List.takeWhile_cons_of_neg (by rw [bne_self_eq_false]; exact Bool.false_ne_true),
    List.append_nil]

theorem dropWhile_reverse (h : mark ∉ tail) (before : CodeString) :
    (before ++ mark :: tail).reverse.dropWhile (· != mark) = mark :: before.reverse := by
  rw [List.reverse_append, List.reverse_cons, List.append_assoc, List.dropWhile_append_of_pos (all_ne_of_not_mem h),
    List.singleton_append, List.dropWhile_cons_of_neg (by rw [bne_self_eq_false]; exact Bool.false_ne_true)]

theorem lastDot_append (h : dot ∉ tail) (before : CodeString) :
    lastDot (before ++ dot :: tail) = some (dot :: tail, before.reverse) := by
  simp only [lastDot, takeWhile_reverse h, dropWhile_reverse h, List.reverse_reverse]

theorem lastDot_of_not_mem (h : dot ∉ name) : lastDot name = none := by
  have hdrop := List.dropWhile_eq_nil_iff.mpr (all_ne_of_not_mem h)
  simp only [lastDot, hdrop]

/-! ## The suffix of a name -/

theorem base_text {dirs : RelativePath} (h : ∀ x ∈ dirs ++ [name], isProper x = true) :
    base (RelativePath.text (dirs ++ [name])) = name := by
  have hkept : ((dirs ++ [name]).filter fun c => c != [] && c != [dot]) = dirs ++ [name] := by
    refine List.filter_eq_self.mpr fun x hx => ?_
    rw [Bool.and_eq_true, bne_iff_ne, bne_iff_ne]
    exact ⟨ne_nil_of_isProper (h x hx), ne_here_of_isProper (h x hx)⟩
  rw [base, RelativePath.components_text (by simp) fun x hx => slash_not_mem (h x hx), hkept,
    List.getLast?_concat, Option.getD_some]

theorem base_of_isProper (h : isProper name = true) : base name = name := by
  have hone : ∀ x ∈ [] ++ [name], isProper x = true := fun x hx => List.mem_singleton.mp hx ▸ h
  have htext := base_text hone
  rwa [List.nil_append, RelativePath.text_singleton] at htext

/-- The suffix of a path is that of its last name. -/
theorem suffix_text {dirs : RelativePath} (h : ∀ x ∈ dirs ++ [name], isProper x = true) :
    suffix (RelativePath.text (dirs ++ [name])) = suffix name := by
  rw [suffix, suffix, base_text h, base_of_isProper (h name (List.mem_append_right _ (List.mem_singleton_self _)))]

theorem suffix_of_not_mem (hp : isProper name = true) (h : dot ∉ name) : suffix name = [] := by
  rw [suffix, base_of_isProper hp, lastDot_of_not_mem h]

/-- The suffix of a name begins at its last dot, unless that is its first character or its last. -/
theorem suffix_append (hp : isProper (before ++ dot :: tail) = true) (h : dot ∉ tail) :
    suffix (before ++ dot :: tail) = if before = [] ∨ tail = [] then [] else dot :: tail := by
  rw [suffix, base_of_isProper hp, lastDot_append h]
  by_cases hb : before = []
  · rw [if_pos (Or.inl hb), hb]
    rfl
  · obtain ⟨p, rest, hrest⟩ := List.exists_cons_of_ne_nil (mt List.reverse_eq_nil_iff.mp hb)
    rw [hrest]
    simp only [List.isEmpty_iff, hb, false_or]

/-! ## The extension of a path in lower case -/

theorem reverse_takeWhile_slash (h : slash ∉ name) : (name.reverse.takeWhile (· != slash)).reverse = name := by
  rw [List.takeWhile_eq_self_iff.mpr (all_ne_of_not_mem h), List.reverse_reverse]

theorem extension_append_slash (h : slash ∉ name) (before : CodeString) :
    extension (before ++ slash :: name) = extension name := by
  rw [extension, extension, takeWhile_reverse h, List.reverse_reverse, reverse_takeWhile_slash h]

theorem extension_of_not_mem (hslash : slash ∉ name) (h : dot ∉ name) : extension name = [] := by
  rw [extension, reverse_takeWhile_slash hslash, lastDot_of_not_mem h]

/-- The extension of a name begins at its last dot, unless there are only dots before that. -/
theorem extension_append (hslash : slash ∉ before ++ dot :: tail) (h : dot ∉ tail) :
    extension (before ++ dot :: tail) = if ∀ p ∈ before, p = dot then [] else dot :: tail := by
  rw [extension, reverse_takeWhile_slash hslash, lastDot_append h]
  simp only [List.all_reverse, List.all_eq_true, beq_iff_eq]

/-- The extension of a path in lower case is that of a lower-case form of its last name. -/
theorem exists_extension_text (h : slash ∉ name) (dirs : RelativePath) :
    ∃ low, Lowers name low ∧ extension (RelativePath.text (dirs ++ [name])).lower = extension low := by
  have hlower := CodeString.lowers_lower (RelativePath.text (dirs ++ [name]))
  by_cases hdirs : dirs = []
  · rw [hdirs, List.nil_append, RelativePath.text_singleton] at hlower ⊢
    exact ⟨_, hlower, rfl⟩
  · rw [RelativePath.text_append_cons hdirs, RelativePath.text_singleton] at hlower ⊢
    obtain ⟨above, rest, heq, _, hrest⟩ := hlower.of_append
    obtain ⟨low, rfl, hlow⟩ := hrest.of_mark_cons (Or.inr rfl)
    refine ⟨low, hlow, ?_⟩
    rw [heq]
    exact extension_append_slash (fun hmem => h ((hlow.mark_mem_iff (Or.inr rfl)).mp hmem)) above

end FileName

end SourceScan
