import SourceScan.Proofs.Function.Surroundings
import SourceScan.Proofs.Rule.Comment
import SourceScan.Proofs.Text.Places

/-!
# A scan line by line

A scan carries nothing over from one line to the next. Of two texts with a line feed between them it finds what it
finds in the first one, and then what it finds in the second, further down (`scanLines_append_newline`); and on one
line it finds one issue for every rule that reports there, in the order of the table (`scanLines_line`). Which rules
report is said by `Rule.Reports`.

Together the two say what is found in every text (`scanLines_lineByLine`), for any table of rules. Only the line feed
ends a line: form feeds, carriage returns and the separators of Unicode are characters of their line like others,
but for one carriage return at its end, which no rule sees.
-/

namespace SourceScan

variable {catalog : Catalog} {r : Rule} {file : CodeString} {line : List Char}

/-! ## Which rules report on a line -/

/-- Behind the blanks that the line begins with there is a comment marker. -/
def CommentedOut (line : List Char) : Prop :=
  ∃ blanks marker rest, line = blanks ++ marker ++ rest ∧ Text.Blanks blanks ∧ marker ∈ commentMarkers

theorem isCommentedOut_iff : isCommentedOut line = true ↔ CommentedOut line := by
  unfold isCommentedOut CommentedOut
  rw [List.any_eq_true]
  simp only [List.isPrefixOf_iff_prefix]
  constructor
  · rintro ⟨marker, hmarker, hprefix⟩
    have hstrip : Text.strip line <+: Text.stripStart line := by
      rw [← List.reverse_reverse (Text.stripStart line)]
      exact List.reverse_prefix.mpr (List.dropWhile_suffix _)
    obtain ⟨rest, hrest⟩ := hprefix.trans hstrip
    refine ⟨line.takeWhile Text.isBlank, marker, rest, ?_, fun c hc => List.mem_takeWhile_imp hc, hmarker⟩
    rw [List.append_assoc, hrest]
    exact List.takeWhile_append_dropWhile.symm
  · rintro ⟨blanks, marker, rest, rfl, hblanks, hmarker⟩
    refine ⟨marker, hmarker, ?_⟩
    have hstart : Text.stripStart (blanks ++ marker ++ rest) = Text.stripStart (marker ++ rest) := by
      rw [List.append_assoc]
      exact List.dropWhile_append_of_pos hblanks
    unfold Text.strip
    rw [hstart]
    exact prefix_strip_append (isBlank_of_mem_marker hmarker) rest

/-- The rule reports on the line of a file: it is for files of any extension or for those of this one, its pattern
occurs in the line, and it does not pass over the line as a comment. -/
structure Rule.Reports (r : Rule) (file : CodeString) (line : List Char) : Prop where
  scope : ∀ extensions, r.extensions = some extensions →
    ∃ e ∈ extensions, CodeString.ofString e = (FileName.suffix file).lower
  shown : ¬(r.skipComments = true ∧ CommentedOut line)
  occurs : Pattern.OccursIn line.toArray r.pattern

theorem Rule.appliesTo_iff {extension : CodeString} : r.appliesTo extension = true ↔
    ∀ extensions, r.extensions = some extensions → ∃ e ∈ extensions, CodeString.ofString e = extension := by
  unfold Rule.appliesTo
  split
  · next hnone =>
    rw [hnone]
    exact ⟨fun _ _ h => (nomatch h), fun _ => rfl⟩
  · next extensions hsome =>
    rw [hsome]
    simp only [Option.some.injEq, forall_eq', List.any_eq_true, beq_iff_eq]

theorem Rule.reports_iff : r.Reports file line ↔ (r.appliesTo (FileName.suffix file).lower &&
    (!(r.skipComments && isCommentedOut line) && r.matchesLine line.toArray)) = true := by
  rw [Bool.and_eq_true, Bool.and_eq_true, Bool.not_eq_true', ← Bool.not_eq_true, Bool.and_eq_true, isCommentedOut_iff,
    Rule.appliesTo_iff, Rule.matchesLine, Pattern.found_iff]
  exact ⟨fun h => ⟨h.scope, h.shown, h.occurs⟩, fun ⟨hscope, hshown, hoccurs⟩ => ⟨hscope, hshown, hoccurs⟩⟩

instance : Decidable (r.Reports file line) := decidable_of_iff _ Rule.reports_iff.symm

/-- What is found in a text is what the rules report on its lines, less a carriage return at the end of each. -/
theorem mem_scanLines_iff_reports {text : List Char} {i : Issue} : i ∈ scanLines catalog file text ↔
    ∃ r ∈ catalog.rules, ∃ k line, (Text.lines text)[k]? = some line ∧ r.Reports file (Text.dropReturn line) ∧
      i = r.issue file (k + 1) := by
  rw [mem_scanLines]
  simp only [Rule.appliesTo_iff, isCommentedOut_iff, Rule.matchesLine, Pattern.found_iff]
  constructor
  · rintro ⟨r, hr, k, line, hline, hscope, hshown, hoccurs, rfl⟩
    exact ⟨r, hr, k, line, hline, ⟨hscope, hshown, hoccurs⟩, rfl⟩
  · rintro ⟨r, hr, k, line, hline, hreports, rfl⟩
    exact ⟨r, hr, k, line, hline, hreports.scope, hreports.shown, hreports.occurs, rfl⟩

/-- A rule of an analyzer has an issue of its name on a line if it reports there. -/
theorem exists_issue_iff_reports {a : Analyzer} (hr : r ∈ a.catalog.rules) (file : CodeString) (text : List Char)
    (k : Nat) : (∃ i ∈ scanLines a.catalog file text, i.line = some (k + 1) ∧ i.rule = CodeString.ofString r.name) ↔
      ∃ line, (Text.lines text)[k]? = some line ∧ r.Reports file (Text.dropReturn line) := by
  simp only [mem_scanLines_iff_reports]
  constructor
  · rintro ⟨_, ⟨r', hr', k', line, hline, hreports, rfl⟩, hk, hname⟩
    obtain rfl := Nat.succ.inj (Option.some.inj hk)
    obtain rfl := Catalog.eq_of_name_eq hr' hr (CodeString.ofString_injective hname)
    exact ⟨line, hline, hreports⟩
  · rintro ⟨line, hline, hreports⟩
    exact ⟨_, ⟨r, hr, k, line, hline, hreports, rfl⟩, rfl, rfl⟩

/-! ## One line -/

/-- What is found on a line that a rule sees as it is: one issue for each rule that reports, in the order of the
table. -/
def reported (catalog : Catalog) (file : CodeString) (line : List Char) : List Issue :=
  (catalog.rules.filter fun r => decide (r.Reports file line)).map (·.issue file 1)

theorem scanLines_line (hline : '\n' ∉ line) :
    scanLines catalog file line = reported catalog file (Text.dropReturn line) := by
  have hone : Text.lines line = [line] := by
    rw [Text.lines_eq_splitOn]
    exact List.splitOnP_eq_singleton fun c hc => beq_false_of_ne (ne_of_mem_of_not_mem hc hline)
  have hscan : scanLines catalog file line = lineIssues (catalog.forExtension (FileName.suffix file)) file 1 line := by
    unfold scanLines
    rw [hone, List.zipIdx_singleton, List.flatMap_singleton]
  rw [hscan]
  unfold lineIssues Catalog.forExtension reported
  simp only [List.filter_filter]
  congr 1
  refine List.filter_congr fun r _ => ?_
  rw [Bool.eq_iff_iff, decide_eq_true_eq, Rule.reports_iff, Bool.and_comm]

/-! ## Lines further down -/

/-- The issue as it is when `n` lines more come before its line. -/
def Issue.below (n : Nat) (i : Issue) : Issue := { i with line := i.line.map (n + ·) }

theorem lineIssues_below (rules : List Rule) (n k : Nat) :
    lineIssues rules file (n + k) line = (lineIssues rules file k line).map (Issue.below n) := by
  unfold lineIssues
  rw [List.map_map]
  rfl

/-- **A scan of two texts.** The issues of the first text, then those of the second, as many lines further down as the
first one has. -/
theorem scanLines_append_newline (before after : List Char) :
    scanLines catalog file (before ++ '\n' :: after) =
      scanLines catalog file before ++ (scanLines catalog file after).map (Issue.below (before.count '\n' + 1)) := by
  unfold scanLines
  rw [Text.lines_append_newline, List.zipIdx_append, List.flatMap_append, Nat.zero_add, Text.length_lines,
    List.zipIdx_eq_map_add (i := before.count '\n' + 1), List.flatMap_map, List.map_flatMap]
  congr 1
  refine List.flatMap_congr fun x _ => ?_
  exact lineIssues_below _ (before.count '\n' + 1) (x.2 + 1)

/-! ## Every text -/

/-- **A scan line by line.** For any table of rules and any file, what is found in two texts with a line feed between
them is what is found in each of them, the second one's lines counted on; and what is found in a text without line
feeds is what the rules report on it as one line, less one carriage return at its end. -/
theorem scanLines_lineByLine (catalog : Catalog) (file : CodeString) :
    (∀ before after, scanLines catalog file (before ++ '\n' :: after) =
      scanLines catalog file before ++ (scanLines catalog file after).map (Issue.below (before.count '\n' + 1))) ∧
    (∀ line, '\n' ∉ line →
      scanLines catalog file (line ++ ['\r']) = reported catalog file line ∧
      (line.getLast? ≠ some '\r' → scanLines catalog file line = reported catalog file line)) ∧
    ∀ text, '\n' ∉ text → ∀ i ∈ scanLines catalog file text, i.line = some 1 := by
  refine ⟨scanLines_append_newline, fun line hline => ⟨?_, fun hlast => ?_⟩, fun text htext i hi => ?_⟩
  · have hreturn : '\n' ∉ line ++ ['\r'] := by
      rw [List.mem_append, List.mem_singleton]
      exact fun h => h.elim hline (by decide)
    rw [scanLines_line hreturn]
    congr 1
    unfold Text.dropReturn
    rw [List.getLast?_concat, List.dropLast_concat]
    rfl
  · rw [scanLines_line hline]
    congr 1
    exact if_neg fun h => hlast (beq_iff_eq.mp h)
  · rw [scanLines_line htext] at hi
    obtain ⟨r, _, rfl⟩ := List.mem_map.mp hi
    rfl

/-- A form feed and a line separator stand in the line on which the address behind them is found. -/
theorem scanLines_lineByLine_separators :
    '\n' ∉ "a\x0c\u2028 http://b".toList ∧ "a\x0c\u2028 http://b".toList.getLast? ≠ some '\r' ∧
      scanLines Analyzer.security.catalog "c.py" ("a\x0c\u2028 http://b".toList ++ ['\r']) =
        reported Analyzer.security.catalog "c.py" "a\x0c\u2028 http://b".toList ∧
      scanLines Analyzer.security.catalog "c.py" "a\x0c\u2028 http://b".toList =
        reported Analyzer.security.catalog "c.py" "a\x0c\u2028 http://b".toList ∧
      (∀ i ∈ scanLines Analyzer.security.catalog "c.py" "a\x0c\u2028 http://b".toList, i.line = some 1) ∧
      (reported Analyzer.security.catalog "c.py" "a\x0c\u2028 http://b".toList).length = 1 := by
  have hline : '\n' ∉ "a\x0c\u2028 http://b".toList := by decide
  have hlast : "a\x0c\u2028 http://b".toList.getLast? ≠ some '\r' := by decide
  obtain ⟨_, hone, hfirst⟩ := scanLines_lineByLine Analyzer.security.catalog "c.py"
  obtain ⟨hreturn, hwhole⟩ := hone _ hline
  refine ⟨hline, hlast, hreturn, hwhole hlast, hfirst _ hline, ?_⟩
  decide +kernel

end SourceScan
