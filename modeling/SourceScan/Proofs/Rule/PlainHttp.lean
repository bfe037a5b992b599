import SourceScan.Proofs.Pattern.Language
import SourceScan.Proofs.Scan.Lines

/-!
# Addresses that are not encrypted

The rule `plain_http` is for addresses of other machines. It does not read the host of an address to its end: it
passes over every host that begins like one of the machine itself, be it that one or a longer one. So it reports on
a line that is not commented out if the line has an address whose host begins with none of the local names
(`exists_plainHttp_iff`), and `localhost.evil.com` is a host that it passes over (`plainHttp_passes_longer`).
-/

namespace SourceScan

variable {line host cs name : List Char}

/-! ## Addresses of a line -/

/-- A character that may stand in the name of a host. -/
def inHost (c : Char) : Bool := c.isAlphanum || c == '.' || c == '-'

/-- The names of the machine itself. -/
def localHosts : List String := ["localhost", "127.0.0.1", "0.0.0.0"]

/-- The line has an address of the host that is not encrypted. The host is all that comes behind the slashes up to
the first character that may not stand in a host; it may be empty. -/
def HasAddress (line host : List Char) : Prop :=
  ∃ before after, line = before ++ "http://".toList ++ after ∧ host = after.takeWhile inHost

/-- A name that may be a host begins the host if it begins the text. -/
theorem prefix_takeWhile_iff {p : Char → Bool} (hname : ∀ c ∈ name, p c = true) :
    name <+: cs.takeWhile p ↔ name <+: cs := by
  constructor
  · exact fun h => h.trans (List.takeWhile_prefix p)
  · rintro ⟨rest, rfl⟩
    rw [List.takeWhile_append_of_pos hname]
    exact List.prefix_append _ _

theorem inHost_of_mem_localHosts {name : String} (hname : name ∈ localHosts) : ∀ c ∈ name.toList, inHost c = true := by
  have hall : localHosts.all (fun name => name.toList.all inHost) = true := by decide
  exact List.all_eq_true.mp (List.all_eq_true.mp hall name hname)

/-- The pattern of the rule occurs in the lines that have an address of a host which no local name begins. -/
theorem occursIn_plainHttp_iff :
    Pattern.OccursIn line.toArray (.lit "http://" ++ .notAhead (.oneOf (localHosts.map .lit))) ↔
      ∃ host, HasAddress line host ∧ ∀ name ∈ localHosts, ¬name.toList <+: host := by
  have hlocal : ∀ after, (∀ first, (Pattern.oneOf (localHosts.map .lit)).Describes first → ¬first <+: after) ↔
      ∀ name ∈ localHosts, ¬name.toList <+: after.takeWhile inHost := by
    intro after
    simp only [Pattern.describes_oneOf_iff, List.mem_map, exists_exists_and_eq_and, Pattern.describes_lit_iff,
      forall_exists_index, and_imp]
    constructor
    · exact fun h name hname hprefix =>
        h _ name hname rfl ((prefix_takeWhile_iff (inHost_of_mem_localHosts hname)).mp hprefix)
    · rintro h _ name hname rfl hprefix
      exact h name hname ((prefix_takeWhile_iff (inHost_of_mem_localHosts hname)).mpr hprefix)
  refine (Pattern.occursIn_notAhead_iff (Pattern.plain_lit "http://") (by decide)).trans ?_
  simp only [Pattern.describes_lit_iff, hlocal]
  constructor
  · rintro ⟨before, _, after, rfl, rfl, hnone⟩
    exact ⟨_, ⟨before, after, rfl, rfl⟩, hnone⟩
  · rintro ⟨_, ⟨before, after, rfl, rfl⟩, hnone⟩
    exact ⟨before, _, after, rfl, rfl, hnone⟩

/-! ## Carriage returns -/

theorem Text.eq_dropReturn_or (line : List Char) : line = dropReturn line ∨ line = dropReturn line ++ ['\r'] := by
  unfold dropReturn
  split
  · next hlast => exact .inr (List.dropLast_append_getLast? _ (eq_of_beq hlast)).symm
  · exact .inl rfl

/-- A carriage return is part of no host. -/
theorem takeWhile_append_return (cs : List Char) : (cs ++ ['\r']).takeWhile inHost = cs.takeWhile inHost := by
  induction cs with
  | nil => rfl
  | cons c cs ih => rw [List.cons_append, List.takeWhile_cons, List.takeWhile_cons, ih]

/-- A line has the same addresses without the carriage return at its end. -/
theorem hasAddress_dropReturn (line : List Char) : HasAddress (Text.dropReturn line) host ↔ HasAddress line host := by
  constructor
  · rintro ⟨before, after, heq, rfl⟩
    rcases Text.eq_dropReturn_or line with hline | hline
    · exact ⟨before, after, hline.trans heq, rfl⟩
    · refine ⟨before, after ++ ['\r'], hline.trans ?_, (takeWhile_append_return after).symm⟩
      rw [heq, List.append_assoc]
  · rintro ⟨before, after, rfl, rfl⟩
    refine ⟨before, Text.dropReturn after, ?_, ?_⟩
    · have hdrop := Text.dropReturn_append_cons (before ++ "http:/".toList) after (c := '/') (by decide)
      rw [List.append_assoc, List.append_assoc] at hdrop ⊢
      exact hdrop
    · rcases Text.eq_dropReturn_or after with hafter | hafter
      · rw [← hafter]
      · rw [← takeWhile_append_return (Text.dropReturn after), ← hafter]

/-- A line is commented out just as it is without the carriage return at its end. -/
theorem commentedOut_dropReturn (line : List Char) : CommentedOut (Text.dropReturn line) ↔ CommentedOut line := by
  constructor
  · rintro ⟨blanks, marker, rest, heq, hblanks, hmarker⟩
    rcases Text.eq_dropReturn_or line with hline | hline
    · exact ⟨blanks, marker, rest, hline.trans heq, hblanks, hmarker⟩
    · refine ⟨blanks, marker, rest ++ ['\r'], hline.trans ?_, hblanks, hmarker⟩
      rw [heq, List.append_assoc]
  · rintro ⟨blanks, marker, rest, rfl, hblanks, hmarker⟩
    have hall : ∀ marker ∈ commentMarkers, marker ≠ [] := by decide
    have hne := hall marker hmarker
    have hlast : marker.getLast hne ≠ '\r' := by
      intro hreturn
      have hblank := isBlank_of_mem_marker hmarker _ (List.getLast_mem hne)
      rw [hreturn] at hblank
      exact absurd hblank (by decide)
    refine ⟨blanks, marker, Text.dropReturn rest, ?_, hblanks, hmarker⟩
    have hdrop := Text.dropReturn_append_cons (blanks ++ marker.dropLast) rest hlast
    rw [List.append_cons, List.append_cons _ _ (Text.dropReturn rest), List.append_assoc blanks,
      List.dropLast_append_getLast hne] at hdrop
    exact hdrop

/-! ## The findings -/

/-- The rule for these addresses, among those of its analyzer. -/
theorem exists_plainHttp_rule : ∃ r ∈ Analyzer.security.catalog.rules, r.name = "plain_http" ∧ r.skipComments = true ∧
    r.extensions = none ∧ r.pattern = .lit "http://" ++ .notAhead (.oneOf (localHosts.map .lit)) := by
  have hany : Analyzer.security.catalog.rules.any (fun r => decide (r.name = "plain_http" ∧ r.skipComments = true ∧
      r.extensions = none ∧ r.pattern = .lit "http://" ++ .notAhead (.oneOf (localHosts.map .lit)))) = true := by decide
  obtain ⟨r, hr, hforms⟩ := List.any_eq_true.mp hany
  exact ⟨r, hr, of_decide_eq_true hforms⟩

/-- **Which addresses are found.** On a line there is an issue of the rule if the line is not commented out and has an
address of a host which none of the local names begins. -/
theorem exists_plainHttp_iff (file : CodeString) (text : List Char) (k : Nat) :
    (∃ i ∈ scanLines Analyzer.security.catalog file text, i.line = some (k + 1) ∧ i.rule = "plain_http") ↔
      ∃ line, (Text.lines text)[k]? = some line ∧ ¬CommentedOut line ∧
        ∃ host, HasAddress line host ∧ ∀ name ∈ localHosts, ¬name.toList <+: host := by
  obtain ⟨r, hr, hname, hskips, hall, hpattern⟩ := exists_plainHttp_rule
  have hreports : ∀ line, r.Reports file (Text.dropReturn line) ↔ ¬CommentedOut line ∧
      ∃ host, HasAddress line host ∧ ∀ name ∈ localHosts, ¬name.toList <+: host := by
    intro line
    simp only [← commentedOut_dropReturn line, ← hasAddress_dropReturn line, ← occursIn_plainHttp_iff, ← hpattern]
    constructor
    · exact fun h => ⟨fun hcomment => h.shown ⟨hskips, hcomment⟩, h.occurs⟩
    · exact fun ⟨hshown, hoccurs⟩ => ⟨fun _ hscope => (nomatch hall.symm.trans hscope), fun h => hshown h.2, hoccurs⟩
  have hissue := exists_issue_iff_reports hr file text k
  rw [hname] at hissue
  simp only [hreports] at hissue
  exact hissue

/-- The host of this address is none of the machine itself, and nothing is found. -/
theorem plainHttp_passes_longer :
    ¬CommentedOut "http://localhost.evil.com".toList ∧
      HasAddress "http://localhost.evil.com".toList "localhost.evil.com".toList ∧
      "localhost.evil.com" ∉ localHosts ∧
      scanLines Analyzer.security.catalog "" "http://localhost.evil.com".toList = [] := by
  refine ⟨?_, ⟨[], "localhost.evil.com".toList, by decide, by decide⟩, by decide, by decide +kernel⟩
  rw [← isCommentedOut_iff]
  decide

end SourceScan
