import SourceScan.Proofs.Pattern.Context
import SourceScan.Proofs.Scan.Unique
import SourceScan.Proofs.Text.ChangedLine

/-!
# Lines with more text around them

A rule that is found in a line is found in every longer line in which that one stands between two spaces
(`matchesLine_padded`): a space begins and ends no word, what a rule must not see next begins with no space,
and the one rule that looks for the start of a line takes a space for it as well. So a finding stays where its
line is padded (`finding_padded_iff`), unless the line is commented out then and the rule passes over such
lines.
-/

namespace SourceScan

variable {a : Analyzer} {r r' : Rule} {file : CodeString} {text line : List Char} {k : Nat}

/-- A line between two other texts, with a space at either side. -/
def padded (before after line : List Char) : List Char := before ++ ' ' :: (line ++ ' ' :: after)

/-- The form of every rule's pattern lets it occur between spaces. -/
theorem Catalog.lastingAfter_space (a : Analyzer) :
    ∀ r ∈ a.catalog.rules, r.pattern.lastingAfter ' ' (some ' ') = true := by
  have hall : a.catalog.rules.all (fun r => r.pattern.lastingAfter ' ' (some ' ')) = true := by
    cases a <;> decide
  exact fun r hr => List.all_eq_true.mp hall r hr

/-- A text behind a space, with nothing after it that goes on with a word. -/
theorem inside_afterSpace (before line after : List Char) (hafter : after.head?.any Text.isWord = false) :
    Pattern.Inside (before ++ ' ' :: (line ++ after)).toArray line.toArray (before.length + 1)
      after.head? := by
  have hlast : ((before ++ [' ']).getLast?).any Text.isWord = false := by
    rw [List.getLast?_concat]
    decide
  have hinside := Pattern.Inside.of_append (before ++ [' ']) line after hlast hafter
  rw [List.length_append, List.length_singleton, List.append_assoc, List.append_assoc] at hinside
  exact hinside

theorem inside_padded (before after line : List Char) :
    Pattern.Inside (padded before after line).toArray line.toArray (before.length + 1) (some ' ') :=
  inside_afterSpace before line (' ' :: after) (show Text.isWord ' ' = false by decide)

/-- What a rule is found in, it is found in with more text around it. -/
theorem matchesLine_padded (hr : r ∈ a.catalog.rules) (before after : List Char)
    (h : r.matchesLine line.toArray = true) : r.matchesLine (padded before after line).toArray = true := by
  have hbefore : (padded before after line).toArray[before.length]? = some ' ' := by
    rw [padded, List.getElem?_toArray, List.getElem?_append_right (Nat.le_refl _), Nat.sub_self]
    rfl
  exact (Pattern.found_iff _ _).mpr (Pattern.OccursIn.insideAfter (inside_padded before after line) hbefore
    _ (Catalog.lastingAfter_space a r hr) ((Pattern.found_iff _ _).mp h))

/-- Rules of one analyzer with the same name are the same. -/
theorem Catalog.eq_of_name_eq (hr : r ∈ a.catalog.rules) (hr' : r' ∈ a.catalog.rules)
    (h : r.name = r'.name) : r = r' := by
  have hnames := (List.nodup_append.mp (List.nodup_append.mp (nodup_ruleNames a)).1).1
  exact List.inj_on_of_nodup_map hnames hr hr' h

/-- A rule's issue is found if the rule is for the file, does not pass over the line and is found in it. -/
theorem issue_mem_scanLines_iff (hr : r ∈ a.catalog.rules) :
    r.issue file (k + 1) ∈ scanLines a.catalog file text ↔
      ∃ line, (Text.lines text)[k]? = some line ∧ r.appliesTo (FileName.suffix file).lower = true ∧
        ¬(r.skipComments = true ∧ isCommentedOut (Text.dropReturn line) = true) ∧
        r.matchesLine (Text.dropReturn line).toArray = true := by
  rw [mem_scanLines]
  constructor
  · intro ⟨r', hr', k', line, hline, happlies, hskip, hmatches, hissue⟩
    have hname : r.name = r'.name := CodeString.ofString_injective (congrArg Issue.rule hissue)
    have hk : k + 1 = k' + 1 := Option.some.inj (congrArg Issue.line hissue)
    obtain rfl := Catalog.eq_of_name_eq hr hr' hname
    obtain rfl := Nat.succ.inj hk
    exact ⟨line, hline, happlies, hskip, hmatches⟩
  · intro ⟨line, hline, happlies, hskip, hmatches⟩
    exact ⟨r, hr, k, line, hline, happlies, hskip, hmatches, rfl⟩

/-- **Padding hides no match.** A rule that is found in a text is found where the text stands between two
spaces, whatever comes before and after them. So a finding on a line that ends in no carriage return is made
as well where the line is padded with texts of one line, unless the line is commented out then and the rule
passes over such lines. -/
theorem finding_padded_iff (a : Analyzer) (hr : r ∈ a.catalog.rules) :
    (∀ before s after : List Char, r.matchesLine s.toArray = true →
      r.matchesLine (padded before after s).toArray = true) ∧
    ∀ (file : CodeString) (text : List Char) (k : Nat) (line before after : List Char),
      (Text.lines text)[k]? = some line → line.getLast? ≠ some '\r' → '\n' ∉ before → '\n' ∉ after →
      r.issue file (k + 1) ∈ scanLines a.catalog file text →
      (r.issue file (k + 1) ∈ scanLines a.catalog file (Text.changeLine k (padded before after) text) ↔
        ¬(r.skipComments = true ∧
          isCommentedOut (Text.dropReturn (padded before after line)) = true)) := by
  refine ⟨fun before s after h => matchesLine_padded hr before after h, ?_⟩
  intro file text k line before after hline hreturn hbefore hafter hfound
  have hpadded : ∀ l, '\n' ∉ l → '\n' ∉ padded before after l := by
    intro l hl
    simp [padded, hl, hbefore, hafter]
  have hchanged : (Text.lines (Text.changeLine k (padded before after) text))[k]? =
      some (padded before after line) := by
    rw [Text.lines_changeLine hpadded, List.getElem?_modify_eq, hline]
    rfl
  -- A carriage return at the end of what comes after is not part of the line.
  have hdrop : Text.dropReturn (padded before after line) = padded before (Text.dropReturn after) line := by
    have hspace : ' ' ≠ '\r' := by decide
    have h := Text.dropReturn_append_cons (before ++ ' ' :: line) after hspace
    rw [List.append_assoc, List.append_assoc] at h
    exact h
  obtain ⟨line', hline', happlies, _, hmatches⟩ := (issue_mem_scanLines_iff hr).mp hfound
  obtain rfl := Option.some.inj (hline.symm.trans hline')
  have hwhole : Text.dropReturn line = line := by
    rw [Text.dropReturn, if_neg (by simpa using hreturn)]
  rw [hwhole] at hmatches
  rw [issue_mem_scanLines_iff hr, hchanged, hdrop]
  simp only [Option.some.injEq, exists_eq_left', hdrop, happlies, matchesLine_padded hr _ _ hmatches, and_true,
    true_and]

theorem lines_atStart : (Text.lines "exec(x)".toList)[0]? = some "exec(x)".toList := by decide

/-- A rule that passes over comments finds a call at the start of a line. -/
theorem exists_issue_atStart : ∃ r ∈ Analyzer.security.catalog.rules, r.skipComments = true ∧
    r.issue "x.js" 1 ∈ scanLines Analyzer.security.catalog "x.js" "exec(x)".toList := by
  have hany : (Analyzer.security.catalog.rules.any fun r => r.skipComments &&
      (r.appliesTo (FileName.suffix "x.js").lower && r.matchesLine "exec(x)".toList.toArray)) = true := by
    decide
  obtain ⟨r, hr, h⟩ := List.any_eq_true.mp hany
  simp only [Bool.and_eq_true] at h
  obtain ⟨hskip, happlies, hmatches⟩ := h
  refine ⟨r, hr, hskip, (issue_mem_scanLines_iff hr).mpr ⟨_, lines_atStart, happlies, ?_, hmatches⟩⟩
  exact fun hboth => absurd hboth.2 (by decide)

/-- A call at the start of a line is found behind an assignment as well, but not in a comment. -/
theorem finding_padded_atStart :
    ∃ r ∈ Analyzer.security.catalog.rules, r.matchesLine "exec(x)".toList.toArray = true ∧
      r.matchesLine (padded "y =".toList ";".toList "exec(x)".toList).toArray = true ∧
      (Text.lines "exec(x)".toList)[0]? = some "exec(x)".toList ∧
      "exec(x)".toList.getLast? ≠ some '\r' ∧ '\n' ∉ "y =".toList ∧ '\n' ∉ ";".toList ∧
      r.issue "x.js" 1 ∈ scanLines Analyzer.security.catalog "x.js" "exec(x)".toList ∧
      r.issue "x.js" 1 ∈ scanLines Analyzer.security.catalog "x.js"
        (Text.changeLine 0 (padded "y =".toList ";".toList) "exec(x)".toList) ∧
      r.issue "x.js" 1 ∉ scanLines Analyzer.security.catalog "x.js"
        (Text.changeLine 0 (padded "//".toList ";".toList) "exec(x)".toList) := by
  obtain ⟨r, hr, hskip, hfound⟩ := exists_issue_atStart
  obtain ⟨line, hline, _, _, hmatches⟩ := (issue_mem_scanLines_iff hr).mp hfound
  obtain rfl := Option.some.inj (lines_atStart.symm.trans hline)
  have hreturn : "exec(x)".toList.getLast? ≠ some '\r' := by decide
  have hwhole : Text.dropReturn "exec(x)".toList = "exec(x)".toList := by decide
  rw [hwhole] at hmatches
  obtain ⟨hpadded, hkept⟩ := finding_padded_iff .security hr
  refine ⟨r, hr, hmatches, hpadded _ _ _ hmatches, lines_atStart, hreturn, by decide, by decide, hfound, ?_, ?_⟩
  · refine (hkept _ _ _ _ _ _ hline hreturn (by decide) (by decide) hfound).mpr fun h => ?_
    exact absurd h.2 (by decide)
  · refine fun h => (hkept _ _ _ _ _ _ hline hreturn (by decide) (by decide) hfound).mp h ⟨hskip, ?_⟩
    decide

end SourceScan
