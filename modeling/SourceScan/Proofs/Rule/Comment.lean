import SourceScan.Proofs.Rule.Padding

/-!
# Lines put into a comment

A comment marker and a space in front of a line take away the findings of the rules that pass over comments,
and change nothing else (`scanLines_commented`). The line is commented out then (`isCommentedOut_marked`), so
those rules find nothing; and of every other rule no piece begins with a character of a marker or with a
space, so the marker neither makes a finding nor takes one away (`matchesLine_marked`).
-/

namespace SourceScan

variable {a : Analyzer} {r : Rule} {file : CodeString} {text line marker : List Char} {k : Nat}

/-- A line behind a comment marker and a space. -/
def marked (marker line : List Char) : List Char := marker ++ ' ' :: line

/-- Whether an issue is on line `k`, counted from 1, and of a rule that passes over comments. -/
def Catalog.passesOver (c : Catalog) (k : Nat) (i : Issue) : Bool :=
  i.line == some k && c.rules.any fun r => r.skipComments && CodeString.ofString r.name == i.rule

/-! ## What a marker does to a line -/

/-- What holds no blank is left when blanks are taken off the ends of what it begins. -/
theorem prefix_strip_append {start : List Char} (h : ∀ c ∈ start, Text.isBlank c = false)
    (rest : List Char) : start <+: Text.strip (start ++ rest) := by
  have whole : ∀ cs : List Char, (∀ c ∈ cs, Text.isBlank c = false) → cs.dropWhile Text.isBlank = cs := by
    intro cs hcs
    cases cs with
    | nil => rfl
    | cons c cs => exact List.dropWhile_cons_of_neg (by rw [hcs c List.mem_cons_self]; exact Bool.false_ne_true)
  cases start with
  | nil => exact List.nil_prefix
  | cons c start =>
    have hfirst : Text.stripStart (c :: start ++ rest) = c :: start ++ rest :=
      List.dropWhile_cons_of_neg (by rw [h c List.mem_cons_self]; exact Bool.false_ne_true)
    have hback : (c :: start).reverse.dropWhile Text.isBlank = (c :: start).reverse :=
      whole _ fun d hd => h d (List.mem_reverse.mp hd)
    rw [Text.strip, hfirst, Text.stripStart, List.reverse_append, List.dropWhile_append, hback]
    split
    · simp
    · rw [List.reverse_append, List.reverse_reverse]
      exact List.prefix_append _ _

theorem isBlank_of_mem_marker (hm : marker ∈ commentMarkers) : ∀ c ∈ marker, Text.isBlank c = false := by
  have hall : commentMarkers.flatten.all (fun c => !Text.isBlank c) = true := by decide
  intro c hc
  simpa using List.all_eq_true.mp hall c (List.mem_flatten.mpr ⟨marker, hm, hc⟩)

theorem isCommentedOut_marked (hm : marker ∈ commentMarkers) (line : List Char) :
    isCommentedOut (marked marker line) = true :=
  List.any_eq_true.mpr
    ⟨marker, hm, List.isPrefixOf_iff_prefix.mpr (prefix_strip_append (isBlank_of_mem_marker hm) _)⟩

theorem dropReturn_marked (marker line : List Char) :
    Text.dropReturn (marked marker line) = marked marker (Text.dropReturn line) :=
  Text.dropReturn_append_cons marker line (by decide)

/-! ## What a marker does to a rule -/

/-- The form of every rule that does not pass over comments: it is found in the end of a text as in the text,
and no piece of it begins with a character of a marker or with a space. -/
theorem Catalog.neverBegins_marker (a : Analyzer) :
    ∀ r ∈ a.catalog.rules, r.skipComments = false → r.pattern.confined none = true ∧
      ∀ c ∈ ' ' :: commentMarkers.flatten, r.pattern.neverBegins c = true := by
  have hall : a.catalog.rules.all (fun r => r.skipComments || (r.pattern.confined none &&
      (' ' :: commentMarkers.flatten).all fun c => r.pattern.neverBegins c)) = true := by
    cases a <;> decide
  intro r hr hskip
  have hrule := List.all_eq_true.mp hall r hr
  rw [hskip, Bool.false_or, Bool.and_eq_true, List.all_eq_true] at hrule
  exact hrule

/-- A marker makes no difference to a rule that does not pass over comments. -/
theorem matchesLine_marked (hr : r ∈ a.catalog.rules) (hskip : r.skipComments = false)
    (hm : marker ∈ commentMarkers) (line : List Char) :
    r.matchesLine (marked marker line).toArray = r.matchesLine line.toArray := by
  obtain ⟨hconfined, hnever⟩ := Catalog.neverBegins_marker a r hr hskip
  have hinside := inside_afterSpace marker line [] rfl
  rw [List.append_nil] at hinside
  refine Bool.eq_iff_iff.mpr ((Pattern.found_iff _ _).trans (Iff.trans ?_ (Pattern.found_iff _ _).symm))
  refine Pattern.occursIn_inside_iff hinside hconfined fun i c hi hc => hnever c ?_
  have hstart : i < (marker ++ [' ']).length := by simpa using hi
  rw [List.getElem?_toArray, marked, ← List.singleton_append, ← List.append_assoc,
    List.getElem?_append_left hstart] at hc
  rcases List.mem_append.mp (List.mem_of_getElem? hc) with hc | hc
  · exact List.mem_cons_of_mem _ (List.mem_flatten.mpr ⟨marker, hm, hc⟩)
  · rw [List.mem_singleton.mp hc]
    exact List.mem_cons_self

/-! ## What a marker does to the findings -/

theorem Catalog.passesOver_issue (hr : r ∈ a.catalog.rules) (file : CodeString) (k l : Nat) :
    a.catalog.passesOver k (r.issue file l) = (l == k && r.skipComments) := by
  have hskips : (a.catalog.rules.any fun r' => r'.skipComments && CodeString.ofString r'.name ==
      CodeString.ofString r.name) = r.skipComments := by
    refine Bool.eq_iff_iff.mpr (List.any_eq_true.trans ⟨fun h => ?_, fun h => ⟨r, hr, by simp [h]⟩⟩)
    obtain ⟨r', hr', h⟩ := h
    rw [Bool.and_eq_true, beq_iff_eq] at h
    obtain rfl := Catalog.eq_of_name_eq hr' hr (CodeString.ofString_injective h.2)
    exact h.1
  rw [Catalog.passesOver, ← hskips]
  rfl

/-- On the line itself the marker takes away the findings of the rules that pass over comments. -/
theorem lineIssues_marked {rules : List Rule} (hrules : ∀ r ∈ rules, r ∈ a.catalog.rules)
    (hm : marker ∈ commentMarkers) (file : CodeString) (k : Nat) (line : List Char) :
    lineIssues rules file k (marked marker line) =
      (lineIssues rules file k line).filter fun i => !a.catalog.passesOver k i := by
  simp only [lineIssues, dropReturn_marked, isCommentedOut_marked hm, List.filter_map, List.filter_filter]
  congr 1
  refine List.filter_congr fun r hr => ?_
  rw [Function.comp_apply, Catalog.passesOver_issue (hrules r hr), beq_self_eq_true, Bool.true_and,
    Bool.and_true]
  cases hskip : r.skipComments with
  | true => rfl
  | false => rw [matchesLine_marked (hrules r hr) hskip hm]; rfl

theorem lineIssues_filter_of_ne {rules : List Rule} (hrules : ∀ r ∈ rules, r ∈ a.catalog.rules)
    {l : Nat} (hne : l ≠ k) (file : CodeString) (line : List Char) :
    (lineIssues rules file l line).filter (fun i => !a.catalog.passesOver k i) =
      lineIssues rules file l line := by
  refine List.filter_eq_self.mpr fun i hi => ?_
  obtain ⟨r, hr, rfl⟩ := List.mem_map.mp hi
  rw [Catalog.passesOver_issue (hrules r (List.mem_of_mem_filter hr)), beq_false_of_ne hne]
  rfl

/-- What is found in numbered lines one of which is changed is found line by line. -/
theorem flatMap_zipIdx_modify {α β : Type} (g : α × Nat → List β) (f : α → α) (l : List α) (k n : Nat) :
    ((l.modify k f).zipIdx n).flatMap g =
      (l.zipIdx n).flatMap fun x => if x.2 = n + k then g (f x.1, x.2) else g x := by
  induction l generalizing k n with
  | nil => cases k <;> rfl
  | cons x l ih =>
    cases k with
    | zero =>
      rw [List.modify_zero_cons, List.zipIdx_cons, List.zipIdx_cons, List.flatMap_cons, List.flatMap_cons,
        if_pos (show (x, n).2 = n + 0 from rfl)]
      congr 1
      refine List.flatMap_congr fun y hy => ?_
      have hle := (List.mem_zipIdx hy).1
      exact (if_neg (by omega)).symm
    | succ k =>
      rw [List.modify_succ_cons, List.zipIdx_cons, List.zipIdx_cons, List.flatMap_cons, List.flatMap_cons,
        if_neg (by omega), ih, Nat.add_right_comm, Nat.add_assoc]

/-- **A line put into a comment loses the findings of the rules that pass over comments, and nothing else
changes.** All other findings, on this line and on the others, are kept in their order, and none is added. -/
theorem scanLines_commented (a : Analyzer) (file : CodeString) (text : List Char) (k : Nat)
    (hm : marker ∈ commentMarkers) :
    scanLines a.catalog file (Text.changeLine k (marked marker) text) =
      (scanLines a.catalog file text).filter fun i => !a.catalog.passesOver (k + 1) i := by
  have hone : ∀ m ∈ commentMarkers, '\n' ∉ m := by decide
  have hmarked : ∀ l, '\n' ∉ l → '\n' ∉ marked marker l := by
    intro l hl
    simp [marked, hl, hone marker hm]
  have hrules : ∀ r ∈ a.catalog.forExtension (FileName.suffix file), r ∈ a.catalog.rules :=
    fun r hr => List.mem_of_mem_filter hr
  simp only [scanLines, Text.lines_changeLine hmarked, flatMap_zipIdx_modify, List.filter_flatMap]
  refine List.flatMap_congr fun x _ => ?_
  by_cases hx : x.2 = k
  · rw [if_pos (by omega), lineIssues_marked hrules hm, hx]
  · rw [if_neg (by omega), lineIssues_filter_of_ne hrules (by omega)]

/-- Behind two slashes a call is passed over that is found without them. -/
theorem scanLines_commented_atStart :
    "//".toList ∈ commentMarkers ∧
      scanLines Analyzer.security.catalog "x.js" (Text.changeLine 0 (marked "//".toList) "exec(x)".toList) =
        (scanLines Analyzer.security.catalog "x.js" "exec(x)".toList).filter
          (fun i => !Analyzer.security.catalog.passesOver 1 i) ∧
      ∃ r ∈ Analyzer.security.catalog.rules,
        r.issue "x.js" 1 ∈ scanLines Analyzer.security.catalog "x.js" "exec(x)".toList ∧
        r.issue "x.js" 1 ∉ scanLines Analyzer.security.catalog "x.js"
          (Text.changeLine 0 (marked "//".toList) "exec(x)".toList) := by
  have hm : "//".toList ∈ commentMarkers := by decide
  have hchanged := scanLines_commented .security "x.js" "exec(x)".toList 0 hm
  obtain ⟨r, hr, hskip, hfound⟩ := exists_issue_atStart
  refine ⟨hm, hchanged, r, hr, hfound, fun hleft => ?_⟩
  rw [hchanged] at hleft
  have hkept := (List.mem_filter.mp hleft).2
  rw [Catalog.passesOver_issue hr, hskip] at hkept
  exact Bool.false_ne_true hkept

end SourceScan
