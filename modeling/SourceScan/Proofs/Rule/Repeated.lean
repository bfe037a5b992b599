import SourceScan.Proofs.Pattern.Apart
import SourceScan.Proofs.Pattern.Language
import SourceScan.Proofs.Rule.Padding

/-!
# Rules for a thing that comes more than once

Three performance rules look for several pieces of one pattern on a line, with anything between them. Since anything
may come between them, these are pieces one after the other (`Pattern.occursIn_twice_iff`,
`Pattern.occursIn_times_iff`); and since they cannot overlap, there are as many of them as there are places where one
begins (`Pattern.most_places`). A fourth rule looks for three words in their order. What the four are found in is put
together in `performance_finds_iff`.

It is stated for lines without line feeds, and a rule sees no others (`Text.newline_not_mem_of_mem_lines`).
-/

namespace SourceScan

namespace Pattern

variable {p : Pattern} {t : Array Char} {line cs : List Char} {i k n : Nat}

/-! ## Anything between two pieces -/

/-- What is between two places of a line is part of one line. -/
theorem spans_sameLine (hline : '\n' ∉ line) (hle : i ≤ k) (hk : k ≤ line.toArray.size) :
    Spans line.toArray sameLine i k := by
  refine ⟨hle, fun x _ hlt => ?_⟩
  have hin : x < line.length := Nat.lt_of_lt_of_le hlt hk
  rw [charAt_eq_any, List.getElem?_toArray, List.getElem?_eq_getElem hin]
  exact (Bool.not_eq_true' _).mpr (beq_false_of_ne (ne_of_mem_of_not_mem (List.getElem_mem hin) hline))

/-- Two pieces with anything between them are two pieces one after the other. -/
theorem occursIn_twice_iff (hline : '\n' ∉ line) (hp : p.nullable = false) :
    OccursIn line.toArray (inOrder [p, sameLine, p]) ↔ Pieces line.toArray p 0 2 := by
  constructor
  · rintro ⟨i, k, _, _, hfirst, _, hgap, hsecond⟩
    exact .cons (Nat.zero_le i) hfirst (.cons hgap.1 hsecond (.nil k))
  · intro hpieces
    cases hpieces with
    | cons _ hfirst hrest =>
      cases hrest with
      | cons hle hsecond _ =>
        have hgap := spans_sameLine hline hle (Nat.le_of_lt (hsecond.start_lt hp))
        exact ⟨_, _, Nat.le_of_lt (hfirst.start_lt hp), _, hfirst, _, hgap, hsecond⟩

theorem pieces_of_spans_times (h : Spans t (times (n + 1) (p ++ sameLine)) i k) : Pieces t p i (n + 1) := by
  induction n generalizing i with
  | zero =>
    obtain ⟨_, hpiece, _⟩ := h
    exact .cons (Nat.le_refl i) hpiece (.nil _)
  | succ n ih =>
    obtain ⟨_, ⟨_, hpiece, hgap⟩, hrest⟩ := h
    exact .cons (Nat.le_refl i) hpiece ((ih hrest).of_le hgap.1)

theorem spans_times_of_pieces (hline : '\n' ∉ line) (hp : p.nullable = false)
    (h : Pieces line.toArray p i (n + 1)) :
    ∃ j k, i ≤ j ∧ j ≤ line.toArray.size ∧ Spans line.toArray (times (n + 1) (p ++ sameLine)) j k := by
  induction n generalizing i with
  | zero =>
    cases h with
    | @cons _ j k _ hle hpiece _ =>
      have hnothing : Spans line.toArray sameLine k k :=
        ⟨Nat.le_refl k, fun x hle hlt => absurd hlt (Nat.not_lt_of_le hle)⟩
      exact ⟨j, k, hle, Nat.le_of_lt (hpiece.start_lt hp), k, hpiece, hnothing⟩
  | succ n ih =>
    cases h with
    | @cons _ j m _ hle hpiece hrest =>
      obtain ⟨j', k, hle', hj', hspans⟩ := ih hrest
      exact ⟨j, k, hle, Nat.le_of_lt (hpiece.start_lt hp), j', ⟨m, hpiece, spans_sameLine hline hle' hj'⟩, hspans⟩

/-- So many pieces with anything after each of them are as many pieces one after the other. -/
theorem occursIn_times_iff (hline : '\n' ∉ line) (hp : p.nullable = false) (n : Nat) :
    OccursIn line.toArray (times (n + 1) (p ++ sameLine)) ↔ Pieces line.toArray p 0 (n + 1) := by
  constructor
  · rintro ⟨i, k, _, hspans⟩
    exact (pieces_of_spans_times hspans).of_le (Nat.zero_le i)
  · intro hpieces
    obtain ⟨j, k, _, hj, hspans⟩ := spans_times_of_pieces hline hp hpieces
    exact ⟨j, k, hj, hspans⟩

/-! ## Words in either case -/

/-- The letters of `JOIN` in either case; the `i` may be a dotted capital or a dotless small one as well. -/
def joinLetters : List (List Char) := ["jJ".toList, "oO".toList, "iI\u0130\u0131".toList, "nN".toList]

/-- The word `JOIN` is at the place, in whatever case, and is not part of a longer word. -/
def JoinAt (before rest : List Char) : Prop :=
  Text.endsInWord before = false ∧ List.Forall₂ (fun letters c => c ∈ letters) joinLetters (rest.take 4) ∧
    Text.beginsInWord (rest.drop 4) = false

instance : DecidableRel JoinAt := fun _ _ => inferInstanceAs (Decidable (_ ∧ _ ∧ _))

/-- The word `JOIN`. -/
def joinWord : Pattern := inOrder [boundary, caseless "JOIN", boundary]

theorem forall₂_contains_iff {sets : List CharSet} {letters : List (List Char)}
    (h : List.Forall₂ (fun s letters => ∀ c, s.contains c = true ↔ c ∈ letters) sets letters) :
    List.Forall₂ (fun s c => s.contains c = true) sets cs ↔ List.Forall₂ (fun letters c => c ∈ letters) letters cs := by
  induction h generalizing cs with
  | nil => rw [List.forall₂_nil_left_iff, List.forall₂_nil_left_iff]
  | cons hfirst _ ih => simp only [List.forall₂_cons_left_iff, hfirst, ih]

theorem describes_join_iff :
    (caseless "JOIN").Describes cs ↔ List.Forall₂ (fun letters c => c ∈ letters) joinLetters cs := by
  have hcaseless : caseless "JOIN" = inOrder (("JOIN".toList.map CharSet.eitherCase).map char) := rfl
  rw [hcaseless, describes_chars_iff]
  have hpair : ∀ {x y c : Char}, (c == x || c == y) = true ↔ c ∈ [x, y] := by
    intro x y c
    rw [Bool.or_eq_true, beq_iff_eq, beq_iff_eq, List.mem_cons, List.mem_singleton]
  refine forall₂_contains_iff (.cons (fun c => hpair) (.cons (fun c => hpair) (.cons (fun c => ?_)
    (.cons (fun c => hpair) .nil))))
  show ((c == 'i' || c == 'I') || (c == '\u0130' || c == '\u0131')) = true ↔ c ∈ ['i', 'I'] ++ ['\u0130', '\u0131']
  rw [Bool.or_eq_true, hpair, hpair, List.mem_append]

/-- All letters of the word are word characters. -/
theorem isWord_of_mem_join (h : List.Forall₂ (fun letters c => c ∈ letters) joinLetters cs) :
    ∀ c ∈ cs, Text.isWord c = true := by
  have hall : ∀ letters ∈ joinLetters, letters.all Text.isWord = true :=
    List.all_eq_true.mp (show joinLetters.all (fun letters => letters.all Text.isWord) = true by decide +kernel)
  generalize joinLetters = letters at h hall
  induction h with
  | nil => exact nofun
  | cons hfirst _ ih =>
    obtain ⟨hletters, hrest⟩ := List.forall_mem_cons.mp hall
    exact List.forall_mem_cons.mpr ⟨List.all_eq_true.mp hletters _ hfirst, ih hrest⟩

theorem begins_join_iff (before rest : List Char) :
    (∃ k, Spans (before ++ rest).toArray joinWord before.length k) ↔ JoinAt before rest := by
  have hplain : (caseless "JOIN").plain = true := by decide
  -- Where the word stands, the boundaries are a matter of what is before it and after it.
  have hbounds : ∀ {word : List Char} (after : List Char),
      List.Forall₂ (fun letters c => c ∈ letters) joinLetters word →
      (isBoundary (before ++ (word ++ after)).toArray before.length = true ↔ Text.endsInWord before = false) ∧
      (isBoundary (before ++ (word ++ after)).toArray (before ++ word).length = true ↔
        Text.beginsInWord after = false) := by
    intro word after hword
    have hne : word ≠ [] := by
      rintro rfl
      cases hword
    obtain ⟨hbegins, hends⟩ := Text.inWord_of_forall hne (isWord_of_mem_join hword)
    have hends' : Text.endsInWord (before ++ word) = true := (Text.endsInWord_append hne before).trans hends
    refine ⟨isBoundary_before_iff (Text.beginsInWord_append hbegins after) before, ?_⟩
    rw [← List.append_assoc]
    exact isBoundary_after_iff hends' after
  constructor
  · rintro ⟨_, _, ⟨hstart, rfl⟩, _, hspans, hend, rfl⟩
    obtain ⟨word, after, hdescribes, rfl, rfl⟩ := (spans_iff_describes hplain before rest).mp hspans
    have hword := describes_join_iff.mp hdescribes
    obtain ⟨hbefore, hafter⟩ := hbounds after hword
    have hlength : word.length = 4 := hword.length_eq.symm
    refine ⟨hbefore.mp hstart, ?_, ?_⟩
    · rw [List.take_left' hlength]
      exact hword
    · rw [List.drop_left' hlength]
      exact hafter.mp hend
  · rintro ⟨hbefore, hword, hafter⟩
    have hspans := (spans_iff_describes hplain before rest).mpr
      ⟨rest.take 4, rest.drop 4, describes_join_iff.mpr hword, (List.take_append_drop 4 rest).symm, rfl⟩
    obtain ⟨hstart, hend⟩ := hbounds (rest.drop 4) hword
    rw [List.take_append_drop] at hstart hend
    exact ⟨_, _, ⟨hstart.mpr hbefore, rfl⟩, _, hspans, hend.mpr hafter, rfl⟩

end Pattern

open Pattern

/-! ## Rules of a name -/

/-- The rule of the name is found in the line. -/
def Catalog.Finds (c : Catalog) (name : String) (line : List Char) : Prop :=
  ∃ r ∈ c.rules, r.name = name ∧ r.matchesLine line.toArray = true

variable {line : List Char}

/-- A rule of an analyzer is found where its pattern occurs. -/
theorem Catalog.finds_iff (a : Analyzer) (name : String) (p : Pattern)
    (h : a.catalog.rules.any (fun r => decide (r.name = name ∧ r.pattern = p)) = true) (line : List Char) :
    a.catalog.Finds name line ↔ OccursIn line.toArray p := by
  obtain ⟨r, hr, hforms⟩ := List.any_eq_true.mp h
  obtain ⟨rfl, rfl⟩ := of_decide_eq_true hforms
  constructor
  · rintro ⟨r', hr', hname, hmatches⟩
    obtain rfl := Catalog.eq_of_name_eq hr' hr hname
    exact (found_iff _ _).mp hmatches
  · exact fun hoccurs => ⟨r, hr, rfl, (found_iff _ _).mpr hoccurs⟩

/-! ## The four rules -/

theorem finds_replace_iff (hline : '\n' ∉ line) : Catalog.performance.Finds "chained_replace" line ↔
    3 ≤ Text.places (fun _ rest => ".replace(".toList <+: rest) line := by
  have hrule := Catalog.finds_iff .performance "chained_replace"
    (times 3 (lit ".replace(" ++ sameLine)) (by decide) line
  refine (hrule.trans (occursIn_times_iff hline rfl 2)).trans ?_
  have happart : Apart line.toArray (lit ".replace(") := apart_of_openedBy (s := .single '.') (by decide)
  exact (most_places rfl happart (begins_lit_iff ".replace(")).pieces_iff

theorem finds_sort_iff (hline : '\n' ∉ line) : Catalog.performance.Finds "repeated_sort" line ↔
    2 ≤ Text.places (fun _ rest => Text.Leads ".sort(" ')' rest) line := by
  have hrule := Catalog.finds_iff .performance "repeated_sort"
    (inOrder [PerformanceRules.sortCall, sameLine, PerformanceRules.sortCall]) (by decide) line
  refine (hrule.trans (occursIn_twice_iff hline rfl)).trans ?_
  have happart : Apart line.toArray PerformanceRules.sortCall := apart_of_openedBy (s := .single '.') (by decide)
  exact (most_places rfl happart (begins_leads_iff ".sort(" ")" rfl)).pieces_iff

theorem finds_join_iff (hline : '\n' ∉ line) : Catalog.performance.Finds "multiple_joins" line ↔
    2 ≤ Text.places JoinAt line := by
  have hrule := Catalog.finds_iff .performance "multiple_joins"
    (inOrder [boundary, caseless "JOIN", boundary, sameLine, boundary, caseless "JOIN", boundary]) (by decide) line
  have hwords : OccursIn line.toArray
      (inOrder [boundary, caseless "JOIN", boundary, sameLine, boundary, caseless "JOIN", boundary]) ↔
        OccursIn line.toArray (inOrder [joinWord, sameLine, joinWord]) := by
    refine exists_congr fun i => exists_congr fun k => and_congr_right fun _ => ⟨?_, ?_⟩
    · rintro ⟨_, hstart, _, hword, _, hend, hrest⟩
      exact ⟨_, ⟨_, hstart, _, hword, hend⟩, hrest⟩
    · rintro ⟨_, ⟨_, hstart, _, hword, hend⟩, hrest⟩
      exact ⟨_, hstart, _, hword, _, hend, hrest⟩
  refine (hrule.trans (hwords.trans (occursIn_twice_iff hline rfl))).trans ?_
  have happart : Apart line.toArray joinWord := apart_of_opensWord (by decide +kernel)
  exact (most_places rfl happart begins_join_iff).pieces_iff

theorem describes_request_iff {call : String} {cs : List Char} :
    (inOrder [lit "for", sameLine, lit "await", sameLine, lit call]).Describes cs ↔ ∃ first second,
      '\n' ∉ first ∧ '\n' ∉ second ∧ cs = "for".toList ++ first ++ "await".toList ++ second ++ call.toList := by
  constructor
  · rintro ⟨_, _, hfor, ⟨first, _, hfirst, ⟨_, _, hawait, ⟨second, _, hsecond, hcall, rfl⟩, rfl⟩, rfl⟩, rfl⟩
    obtain rfl := describes_lit_iff.mp hfor
    obtain rfl := describes_lit_iff.mp hawait
    obtain rfl := describes_lit_iff.mp hcall
    refine ⟨first, second, describes_sameLine_iff.mp hfirst, describes_sameLine_iff.mp hsecond, ?_⟩
    simp only [List.append_assoc]
  · rintro ⟨first, second, hfirst, hsecond, rfl⟩
    refine ⟨_, _, describes_lit_iff.mpr rfl, ⟨first, _, describes_sameLine_iff.mpr hfirst, ⟨_, _,
      describes_lit_iff.mpr rfl, ⟨second, _, describes_sameLine_iff.mpr hsecond, describes_lit_iff.mpr rfl, rfl⟩, rfl⟩,
      rfl⟩, ?_⟩
    simp only [List.append_assoc]

theorem finds_request_iff (hline : '\n' ∉ line) : Catalog.performance.Finds "request_in_loop" line ↔
    ∃ before first second after, ∃ call ∈ ["fetch", "axios"],
      line = before ++ "for".toList ++ first ++ "await".toList ++ second ++ call.toList ++ after := by
  have hrule := Catalog.finds_iff .performance "request_in_loop" (inOrder [lit "for", sameLine, lit "await", sameLine,
    lit "fetch"] ||| inOrder [lit "for", sameLine, lit "await", sameLine, lit "axios"]) (by decide) line
  have hcalls : ∀ cs, (inOrder [lit "for", sameLine, lit "await", sameLine, lit "fetch"] |||
      inOrder [lit "for", sameLine, lit "await", sameLine, lit "axios"]).Describes cs ↔
        ∃ call ∈ ["fetch", "axios"], (inOrder [lit "for", sameLine, lit "await", sameLine, lit call]).Describes cs := by
    intro cs
    simp only [List.mem_cons, List.not_mem_nil, or_false, exists_eq_or_imp, exists_eq_left]
    exact Iff.rfl
  refine (hrule.trans (occursIn_iff_describes (by decide))).trans ⟨?_, ?_⟩
  · rintro ⟨before, piece, after, rfl, hpiece⟩
    obtain ⟨call, hcall, hrequest⟩ := (hcalls piece).mp hpiece
    obtain ⟨first, second, _, _, rfl⟩ := describes_request_iff.mp hrequest
    exact ⟨before, first, second, after, call, hcall, by simp only [List.append_assoc]⟩
  · rintro ⟨before, first, second, after, call, hcall, rfl⟩
    have hfirst : '\n' ∉ first := fun hmem => hline (by simp only [List.mem_append, hmem, true_or, or_true])
    have hsecond : '\n' ∉ second := fun hmem => hline (by simp only [List.mem_append, hmem, true_or, or_true])
    refine ⟨before, _, after, ?_, (hcalls _).mpr ⟨call, hcall, describes_request_iff.mpr
      ⟨first, second, hfirst, hsecond, rfl⟩⟩⟩
    simp only [List.append_assoc]

/-- **What the four rules look for.** On a line without line feeds, three of them are found if there are so many
places of a kind: three where a replacement is called, two with the word `JOIN`, two where a list is sorted without
arguments. The fourth is found if there is a `for` with an `await` somewhere behind it, and a request behind that. -/
theorem performance_finds_iff (hline : '\n' ∉ line) :
    (Catalog.performance.Finds "chained_replace" line ↔
      3 ≤ Text.places (fun _ rest => ".replace(".toList <+: rest) line) ∧
    (Catalog.performance.Finds "multiple_joins" line ↔ 2 ≤ Text.places JoinAt line) ∧
    (Catalog.performance.Finds "repeated_sort" line ↔
      2 ≤ Text.places (fun _ rest => Text.Leads ".sort(" ')' rest) line) ∧
    (Catalog.performance.Finds "request_in_loop" line ↔ ∃ before first second after, ∃ call ∈ ["fetch", "axios"],
      line = before ++ "for".toList ++ first ++ "await".toList ++ second ++ call.toList ++ after) :=
  ⟨finds_replace_iff hline, finds_join_iff hline, finds_sort_iff hline, finds_request_iff hline⟩

/-- Two joins, one of them with a dotted capital, are found; two replacements are not. -/
theorem performance_finds_twoJoins :
    '\n' ∉ "JOIN jo\u0130n.replace(.replace(".toList ∧
      Catalog.performance.Finds "multiple_joins" "JOIN jo\u0130n.replace(.replace(".toList ∧
      ¬Catalog.performance.Finds "chained_replace" "JOIN jo\u0130n.replace(.replace(".toList := by
  have hline : '\n' ∉ "JOIN jo\u0130n.replace(.replace(".toList := by decide
  obtain ⟨hreplace, hjoin, _⟩ := performance_finds_iff hline
  refine ⟨hline, hjoin.mpr ?_, fun hfound => absurd (hreplace.mp hfound) ?_⟩
  · decide +kernel
  · decide +kernel

end SourceScan
