import SourceScan.Proofs.Check.Manifest
import SourceScan.Proofs.Pattern.Around

/-!
# Scripts that pipe a download into a shell

A script is reported if a download command stands in it as a word of its own and the first pipe behind that one leads
to a shell (`PipesIntoShell`, `occursIn_downloadIntoShell_iff`). A script may have several download commands, each with
a first pipe of its own: at any one of them it is reported for that one, for what is before it or for what is behind it
(`pipesIntoShell_command_iff`).

So further arguments for a command make no difference if they have no pipe (`pipesIntoShell_insert_iff`).
-/

namespace SourceScan.Manifest

variable {cs text before after filling : List Char} {command : String} {c : Char}

/-- The commands that download. -/
def downloaders : List String := ["curl", "wget"]

/-- The shells that are known. -/
def shells : List String := ["sh", "bash", "zsh"]

/-- What may stand between a pipe and a shell: blanks, and perhaps `sudo` with at least one blank behind it. -/
def LeadsIn (cs : List Char) : Prop :=
  ∃ gap asRoot, cs = gap ++ asRoot ∧ Text.Blanks gap ∧
    (asRoot = [] ∨ ∃ blanks, asRoot = "sudo".toList ++ blanks ∧ blanks ≠ [] ∧ Text.Blanks blanks)

/-- A shell comes next, perhaps behind blanks and `sudo`, and its name ends there. -/
def ShellNext (text : List Char) : Prop :=
  ∃ lead after, ∃ shell ∈ shells, text = lead ++ shell.toList ++ after ∧ LeadsIn lead ∧
    Text.beginsInWord after = false

/-- The first pipe of the text leads to a shell. -/
def PipedNext (text : List Char) : Prop :=
  ∃ skipped rest, text = skipped ++ '|' :: rest ∧ '|' ∉ skipped ∧ ShellNext rest

/-- A download command stands in the text as a word of its own, and the first pipe behind it leads to a shell. -/
def PipesIntoShell (text : List Char) : Prop :=
  ∃ before after, ∃ command ∈ downloaders, text = before ++ command.toList ++ after ∧
    Text.endsInWord before = false ∧ Text.beginsInWord after = false ∧ PipedNext after

theorem isWord_of_mem_downloaders (hcommand : command ∈ downloaders) :
    Text.beginsInWord command.toList = true ∧ Text.endsInWord command.toList = true := by
  have hall : ∀ command ∈ downloaders,
      Text.beginsInWord command.toList = true ∧ Text.endsInWord command.toList = true := by decide
  exact hall command hcommand

/-- A shell at the end of a text is a word there. -/
theorem endsInWord_append_shell {shell : String} (hshell : shell ∈ shells) (before : List Char) :
    Text.endsInWord (before ++ shell.toList) = true := by
  have hall : ∀ shell ∈ shells, shell.toList ≠ [] ∧ Text.endsInWord shell.toList = true := by decide
  rw [Text.endsInWord_append (hall shell hshell).1]
  exact (hall shell hshell).2

/-! ## What the pattern finds -/

section Pattern

open Pattern

/-- What the pattern has behind the command, up to the end of the shell's name. -/
def behindCommand : List Pattern :=
  [run (.compl (.single '|')), lit "|", blanks, opt (lit "sudo" ++ blanks1), opt (lit "ba" ||| lit "z"), lit "sh"]

theorem downloadIntoShell_eq : downloadIntoShell =
    seq boundary (seq (lit "curl" ||| lit "wget") (seq boundary (inOrder (behindCommand ++ [boundary])))) := rfl

theorem describes_downloader_iff :
    (lit "curl" ||| lit "wget").Describes cs ↔ ∃ command ∈ downloaders, cs = command.toList := by
  show (lit "curl").Describes cs ∨ (lit "wget").Describes cs ↔ _
  simp only [describes_lit_iff, downloaders, List.mem_cons, List.not_mem_nil, or_false, exists_eq_or_imp,
    exists_eq_left]

theorem describes_sudo_iff : (opt (lit "sudo" ++ blanks1)).Describes cs ↔
    cs = [] ∨ ∃ blanks, cs = "sudo".toList ++ blanks ∧ blanks ≠ [] ∧ Text.Blanks blanks := by
  constructor
  · rintro (⟨_, blanks, hsudo, hblanks, rfl⟩ | hnil)
    · obtain rfl := describes_lit_iff.mp hsudo
      exact .inr ⟨blanks, rfl, describes_atLeast_one_iff.mp hblanks⟩
    · exact .inl hnil
  · rintro (hnil | ⟨blanks, rfl, hblanks⟩)
    · exact .inr hnil
    · exact .inl ⟨_, blanks, describes_lit_iff.mpr rfl, describes_atLeast_one_iff.mpr hblanks, rfl⟩

theorem describes_shell_iff :
    (inOrder [opt (lit "ba" ||| lit "z"), lit "sh"]).Describes cs ↔ ∃ shell ∈ shells, cs = shell.toList := by
  constructor
  · rintro ⟨_, _, hfirst, hsecond, rfl⟩
    obtain rfl := describes_lit_iff.mp hsecond
    rcases hfirst with (hfirst | hfirst) | rfl
    · obtain rfl := describes_lit_iff.mp hfirst
      exact ⟨"bash", by decide, rfl⟩
    · obtain rfl := describes_lit_iff.mp hfirst
      exact ⟨"zsh", by decide, rfl⟩
    · exact ⟨"sh", by decide, rfl⟩
  · rintro ⟨shell, hshell, rfl⟩
    simp only [shells, List.mem_cons, List.not_mem_nil, or_false] at hshell
    rcases hshell with rfl | rfl | rfl
    · exact ⟨[], _, .inr rfl, describes_lit_iff.mpr rfl, rfl⟩
    · exact ⟨_, _, .inl (.inl (describes_lit_iff.mpr rfl)), describes_lit_iff.mpr rfl, rfl⟩
    · exact ⟨_, _, .inl (.inr (describes_lit_iff.mpr rfl)), describes_lit_iff.mpr rfl, rfl⟩

theorem describes_behindCommand_iff : (inOrder behindCommand).Describes cs ↔
    ∃ skipped lead, ∃ shell ∈ shells, cs = skipped ++ '|' :: (lead ++ shell.toList) ∧ '|' ∉ skipped ∧
      LeadsIn lead := by
  constructor
  · rintro ⟨skipped, _, hskipped, ⟨_, _, hpipe, ⟨gap, _, hgap, ⟨asRoot, _, hsudo, hname, rfl⟩, rfl⟩, rfl⟩, rfl⟩
    obtain rfl := describes_lit_iff.mp hpipe
    obtain ⟨shell, hshell, rfl⟩ := describes_shell_iff.mp hname
    refine ⟨skipped, gap ++ asRoot, shell, hshell, ?_, describes_without_iff.mp hskipped, ?_⟩
    · rw [List.append_assoc]
      rfl
    · exact ⟨gap, asRoot, rfl, hgap, describes_sudo_iff.mp hsudo⟩
  · rintro ⟨skipped, _, shell, hshell, rfl, hskipped, gap, asRoot, rfl, hgap, hsudo⟩
    have hname := describes_shell_iff.mpr ⟨shell, hshell, rfl⟩
    have hlead : (inOrder behindCommand.tail.tail).Describes (gap ++ (asRoot ++ shell.toList)) :=
      ⟨gap, _, hgap, ⟨asRoot, _, describes_sudo_iff.mpr hsudo, hname, rfl⟩, rfl⟩
    rw [List.append_assoc]
    exact ⟨skipped, _, describes_without_iff.mpr hskipped, ⟨_, _, describes_lit_iff.mpr rfl, hlead, rfl⟩, rfl⟩

/-- **What the pattern finds.** It is found where a download command is piped into a shell. -/
theorem occursIn_downloadIntoShell_iff : OccursIn text.toArray downloadIntoShell ↔ PipesIntoShell text := by
  have hplain : (lit "curl" ||| lit "wget").plain = true := by decide
  have hparts : ∀ p ∈ behindCommand, p.plain = true := by decide
  have hword : ∀ word, (lit "curl" ||| lit "wget").Describes word →
      Text.beginsInWord word = true ∧ Text.endsInWord word = true := by
    intro word hdescribes
    obtain ⟨command, hcommand, rfl⟩ := describes_downloader_iff.mp hdescribes
    exact isWord_of_mem_downloaders hcommand
  -- What the pattern takes up ends in the name of the shell, so it asks that no word goes on behind it.
  have hends : ∀ {before skipped lead after : List Char} {shell : String}, shell ∈ shells →
      (Text.endsInWord (before ++ (skipped ++ '|' :: (lead ++ shell.toList))) ≠ Text.beginsInWord after ↔
        Text.beginsInWord after = false) := by
    intro before skipped lead after shell hshell
    rw [← List.cons_append, ← List.append_assoc, ← List.append_assoc, endsInWord_append_shell hshell, ne_comm, ne_eq,
      Bool.not_eq_true]
  rw [downloadIntoShell_eq, occursIn_iff_takes]
  simp only [takes_word_iff hplain hword, takes_inOrder_boundary_iff hparts]
  constructor
  · rintro ⟨before, _, after, rfl, _, _, rfl, hword, hleft, hright, hrest, hboundary⟩
    obtain ⟨command, hcommand, rfl⟩ := describes_downloader_iff.mp hword
    obtain ⟨skipped, lead, shell, hshell, rfl, hskipped, hlead⟩ := describes_behindCommand_iff.mp hrest
    refine ⟨before, _, command, hcommand, ?_, hleft, hright, skipped, lead ++ shell.toList ++ after, ?_, hskipped, ?_⟩
    · simp only [List.append_assoc]
    · simp only [List.append_assoc, List.cons_append]
    · exact ⟨lead, after, shell, hshell, rfl, hlead, (hends hshell).mp hboundary⟩
  · rintro ⟨before, _, command, hcommand, rfl, hleft, hright, skipped, _, rfl, hskipped, hnext⟩
    obtain ⟨lead, after, shell, hshell, rfl, hlead, hend⟩ := hnext
    refine ⟨before, command.toList ++ (skipped ++ '|' :: (lead ++ shell.toList)), after, ?_, command.toList, _, rfl,
      describes_downloader_iff.mpr ⟨command, hcommand, rfl⟩, hleft, ?_,
      describes_behindCommand_iff.mpr ⟨skipped, lead, shell, hshell, rfl, hskipped, hlead⟩, (hends hshell).mpr hend⟩
    · simp only [List.append_assoc, List.cons_append]
    · simp only [List.append_assoc, List.cons_append] at hright ⊢
      exact hright

end Pattern

/-! ## At a command -/

/-- Text without a pipe comes before the first one. -/
theorem pipedNext_append_iff (hfilling : '|' ∉ filling) : PipedNext (filling ++ text) ↔ PipedNext text := by
  constructor
  · rintro ⟨skipped, rest, heq, hskipped, hshell⟩
    obtain ⟨later, rfl, rfl⟩ := Text.exists_of_append_eq_append_cons hfilling heq
    exact ⟨later, rest, rfl, fun hpipe => hskipped (List.mem_append_right filling hpipe), hshell⟩
  · rintro ⟨skipped, rest, rfl, hskipped, hshell⟩
    refine ⟨filling ++ skipped, rest, (List.append_assoc _ _ _).symm, ?_, hshell⟩
    exact fun hpipe => (List.mem_append.mp hpipe).elim hfilling hskipped

/-- No command begins with a character that may stand between a pipe and the end of a shell's name. -/
theorem not_mem_of_downloader {lead : List Char} {shell : String} (hlead : LeadsIn lead) (hshell : shell ∈ shells)
    (hcommand : command ∈ downloaders) (hc : command.toList.head? = some c) : c ∉ lead ++ shell.toList := by
  have hall : ∀ command ∈ downloaders, (command.toList.head?.any fun c => Text.isBlank c || "sudo".toList.contains c ||
      shells.any fun shell => shell.toList.contains c) = false := by decide
  have hnone := hall command hcommand
  rw [hc, Option.any_some, Bool.or_eq_false_iff, Bool.or_eq_false_iff, List.any_eq_false] at hnone
  simp only [List.contains_eq_mem, decide_eq_false_iff_not, decide_eq_true_eq] at hnone
  obtain ⟨⟨hblank, hsudo⟩, hshells⟩ := hnone
  have hblanks : ∀ {blanks : List Char}, Text.Blanks blanks → c ∉ blanks := fun hblanks hmem =>
    Bool.false_ne_true (hblank.symm.trans (hblanks c hmem))
  obtain ⟨gap, _, rfl, hgap, rfl | ⟨blanks, rfl, _, hmore⟩⟩ := hlead
  · rw [List.append_nil, List.mem_append]
    exact fun hmem => hmem.elim (hblanks hgap) (hshells shell hshell)
  · simp only [List.mem_append, not_or]
    exact ⟨⟨hblanks hgap, hsudo, hblanks hmore⟩, hshells shell hshell⟩

/-- Whether a shell comes next is settled before a command, if no word goes on up to it. -/
theorem shellNext_append_iff (hcommand : command ∈ downloaders) (hbefore : Text.endsInWord before = false) :
    ShellNext (before ++ (command.toList ++ after)) ↔ ShellNext before := by
  obtain ⟨c, tail, htail⟩ : ∃ c tail, command.toList = c :: tail := by
    have hall : ∀ command ∈ downloaders, command.toList ≠ [] := by decide
    exact List.exists_cons_of_ne_nil (hall command hcommand)
  constructor
  · rintro ⟨lead, rest, shell, hshell, heq, hlead, hend⟩
    have hnot := not_mem_of_downloader hlead hshell hcommand (c := c) (by rw [htail]; rfl)
    rw [htail, List.cons_append] at heq
    obtain ⟨later, rfl, rfl⟩ := Text.exists_of_append_eq_append_cons hnot heq.symm
    refine ⟨lead, later, shell, hshell, rfl, hlead, ?_⟩
    cases later with
    | nil => rfl
    | cons d later => exact hend
  · rintro ⟨lead, later, shell, hshell, rfl, hlead, hend⟩
    refine ⟨lead, later ++ (command.toList ++ after), shell, hshell, List.append_assoc _ _ _, hlead, ?_⟩
    cases later with
    | nil =>
      rw [List.append_nil, endsInWord_append_shell hshell] at hbefore
      cases hbefore
    | cons d later => exact hend

theorem pipe_not_mem_of_mem_downloaders (hcommand : command ∈ downloaders) : '|' ∉ command.toList := by
  have hall : ∀ command ∈ downloaders, '|' ∉ command.toList := by decide
  exact hall command hcommand

/-- Where a text is cut in front of the pipe of a command, either there is no other pipe between the two, or the command
is behind the cut. -/
theorem piped_of_cut {front skipped later rest : List Char} (hcommand : command ∈ downloaders)
    (hbefore : Text.endsInWord before = false) (hafter : Text.beginsInWord (skipped ++ '|' :: rest) = false)
    (hskipped : '|' ∉ skipped) (hshell : ShellNext rest)
    (heq : before ++ (command.toList ++ skipped) = front ++ later) :
    PipedNext (later ++ '|' :: rest) ∨ PipesIntoShell (later ++ '|' :: rest) := by
  have hnot : '|' ∉ command.toList ++ skipped := fun hpipe =>
    (List.mem_append.mp hpipe).elim (pipe_not_mem_of_mem_downloaders hcommand) hskipped
  by_cases hlater : '|' ∈ later
  · right
    rcases List.append_eq_append_iff.mp heq with ⟨_, _, heq⟩ | ⟨between, rfl, rfl⟩
    · exact absurd (heq ▸ List.mem_append_right _ hlater) hnot
    · have hpiped : PipedNext (skipped ++ '|' :: rest) := ⟨skipped, rest, rfl, hskipped, hshell⟩
      refine ⟨between, _, command, hcommand, ?_, Text.endsInWord_of_append hbefore, hafter, hpiped⟩
      simp only [List.append_assoc]
  · exact .inl ⟨later, rest, rfl, hlater, hshell⟩

/-- Text without a pipe in front of a text adds at most a command for the first pipe. -/
theorem PipesIntoShell.of_append (hfilling : '|' ∉ filling) (h : PipesIntoShell (filling ++ text)) :
    PipedNext text ∨ PipesIntoShell text := by
  obtain ⟨front, _, word, hword, heq, hfront, hback, skipped, rest, rfl, hskipped, hshell⟩ := h
  rw [← List.append_assoc] at heq
  obtain ⟨later, hlater, rfl⟩ := Text.exists_of_append_eq_append_cons hfilling heq
  exact piped_of_cut hword hfront hback hskipped hshell ((List.append_assoc _ _ _).symm.trans hlater)

/-- The commands of a text are those of their own in a longer one, if the text begins in no word. -/
theorem PipesIntoShell.append_left (h : PipesIntoShell text) (htext : Text.beginsInWord text = false)
    (before : List Char) : PipesIntoShell (before ++ text) := by
  obtain ⟨front, after, command, hcommand, rfl, hfront, hafter, hpiped⟩ := h
  have hne : front ≠ [] := by
    rintro rfl
    rw [List.nil_append, Text.beginsInWord_append (isWord_of_mem_downloaders hcommand).1] at htext
    cases htext
  refine ⟨before ++ front, after, command, hcommand, ?_, ?_, hafter, hpiped⟩
  · simp only [List.append_assoc]
  · rw [Text.endsInWord_append hne, hfront]

/-- So they are if a command comes next, and no word goes on up to it. -/
theorem PipesIntoShell.append_right (h : PipesIntoShell before) (hbefore : Text.endsInWord before = false)
    (hcommand : command ∈ downloaders) (after : List Char) : PipesIntoShell (before ++ (command.toList ++ after)) := by
  obtain ⟨front, _, word, hword, rfl, hfront, hback, skipped, rest, rfl, hskipped, hshell⟩ := h
  have hpipe : Text.endsInWord (['|'] ++ rest) = false := Text.endsInWord_of_append (Text.endsInWord_of_append hbefore)
  have hnext : ShellNext (rest ++ (command.toList ++ after)) :=
    (shellNext_append_iff hcommand (Text.endsInWord_of_append hpipe)).mpr hshell
  refine ⟨front, skipped ++ '|' :: (rest ++ (command.toList ++ after)), word, hword, ?_, hfront, ?_, skipped, _, rfl,
    hskipped, hnext⟩
  · simp only [List.append_assoc, List.cons_append]
  · cases skipped <;> exact hback

/-- At a command in a script, the script is reported for what is before the command, for the command, or for what is
behind it. -/
theorem pipesIntoShell_command_iff (hcommand : command ∈ downloaders) (hbefore : Text.endsInWord before = false)
    (hafter : Text.beginsInWord after = false) :
    PipesIntoShell (before ++ command.toList ++ after) ↔
      PipesIntoShell before ∨ PipedNext after ∨ PipesIntoShell after := by
  constructor
  · rintro ⟨front, _, word, hword, heq, hfront, hback, skipped, rest, rfl, hskipped, hshell⟩
    have hcut : before ++ (command.toList ++ after) = front ++ (word.toList ++ skipped) ++ '|' :: rest := by
      simp only [List.append_assoc] at heq ⊢
      exact heq
    rcases List.append_eq_append_iff.mp hcut with ⟨later, hlater, hrest⟩ | ⟨later, rfl, hrest⟩
    · -- The pipe is behind the command.
      right
      obtain ⟨later, rfl, rfl⟩ :=
        Text.exists_of_append_eq_append_cons (pipe_not_mem_of_mem_downloaders hcommand) hrest
      exact piped_of_cut hword hfront hback hskipped hshell (hlater.trans (List.append_assoc _ _ _).symm)
    · -- The pipe is before the command, and so is the shell.
      left
      cases later with
      | nil =>
        have hcons : command.toList ++ after = [] ++ '|' :: rest := hrest.symm
        obtain ⟨_, hnil, _⟩ := Text.exists_of_append_eq_append_cons (pipe_not_mem_of_mem_downloaders hcommand) hcons
        have hword := (isWord_of_mem_downloaders hcommand).1
        rw [(List.append_eq_nil_iff.mp hnil.symm).1] at hword
        cases hword
      | cons d later =>
        obtain ⟨rfl, rfl⟩ := List.cons.inj hrest
        have hpipe : Text.endsInWord (['|'] ++ later) = false := Text.endsInWord_of_append hbefore
        have hlater := Text.endsInWord_of_append hpipe
        refine ⟨front, skipped ++ '|' :: later, word, hword, ?_, hfront, ?_, skipped, later, rfl, hskipped,
          (shellNext_append_iff hcommand hlater).mp hshell⟩
        · simp only [List.append_assoc]
        · cases skipped <;> exact hback
  · rintro (hpipes | hpiped | hpipes)
    · rw [List.append_assoc]
      exact hpipes.append_right hbefore hcommand after
    · exact ⟨before, after, command, hcommand, rfl, hbefore, hafter, hpiped⟩
    · exact hpipes.append_left hafter _

/-- **More arguments for a command.** Text without a pipe behind a download command does not change whether a script
pipes into a shell, if the command is a word of its own with and without that text. -/
theorem pipesIntoShell_insert_iff (hcommand : command ∈ downloaders) (hbefore : Text.endsInWord before = false)
    (hafter : Text.beginsInWord after = false) (hfilling : '|' ∉ filling)
    (hboth : Text.beginsInWord (filling ++ after) = false) :
    PipesIntoShell (before ++ command.toList ++ (filling ++ after)) ↔
      PipesIntoShell (before ++ command.toList ++ after) := by
  rw [pipesIntoShell_command_iff hcommand hbefore hafter, pipesIntoShell_command_iff hcommand hbefore hboth,
    pipedNext_append_iff hfilling]
  refine or_congr_right ⟨fun h => ?_, fun h => ?_⟩
  · exact h.elim .inl fun hpipes => hpipes.of_append hfilling
  · exact h.imp_right fun hpipes => hpipes.append_left hafter filling

/-! ## The findings -/

/-- A script pipes a download into a shell. -/
def Piped (v : Json) : Prop := ∃ script, v = .str script ∧ PipesIntoShell script.shown

theorem isPipedDownload_iff_piped {v : Json} : isPipedDownload v = true ↔ Piped v := by
  rw [isPipedDownload_iff]
  simp only [occursIn_downloadIntoShell_iff, Piped]

theorem piped_str_iff {script : CodeString} : Piped (.str script) ↔ PipesIntoShell script.shown := by
  simp only [Piped, Json.str.injEq, exists_eq_left']

instance : DecidablePred Piped := fun _ => decidable_of_iff _ isPipedDownload_iff_piped

/-- **What is found in the scripts of a manifest.** If the scripts are no object, nothing is. Otherwise, and if their
names are texts, there is one finding on each script that pipes a download into a shell, in the order of the scripts.
Text without a pipe, put in between spaces right behind a download command, does not change whether a script is one of
them. -/
theorem issues_of_scripts (manifest : Members) :
    ((∀ scripts, Json.member? manifest "scripts" ≠ some (.obj scripts)) → scriptIssues manifest = .ok []) ∧
    (∀ scripts, Json.member? manifest "scripts" = some (.obj scripts) → (∀ member ∈ scripts, member.1.IsText) →
      ∃ names : List String,
        names.map CodeString.ofString = (scripts.filter fun member => decide (Piped member.2)).map (·.1) ∧
        scriptIssues manifest = .ok (names.map pipedDownload)) ∧
    ∀ before inserted after : CodeString, ∀ command ∈ downloaders, Text.endsInWord before.shown = false →
      Text.beginsInWord after.shown = false → '|' ∉ inserted.shown →
        isPipedDownload (.str (before ++ command ++ (" " ++ inserted ++ " ") ++ after)) =
          isPipedDownload (.str (before ++ command ++ after)) := by
  refine ⟨fun hnone => ?_, fun scripts hscripts htexts => ?_,
    fun before inserted after command hcommand hbefore hafter hinserted => ?_⟩
  · have hmembers : membersOf manifest "scripts" = [] := by
      unfold membersOf
      split
      · next scripts hscripts => exact absurd hscripts (hnone scripts)
      · rfl
    rw [scriptIssues, hmembers]
    rfl
  · have hpiped : (scripts.filter fun member => isPipedDownload member.2) =
        scripts.filter fun member => decide (Piped member.2) := by
      refine List.filter_congr fun member _ => ?_
      rw [Bool.eq_iff_iff, decide_eq_true_eq]
      exact isPipedDownload_iff_piped
    have hnames : ∀ name ∈ (scripts.filter fun member => decide (Piped member.2)).map (·.1), name.IsText := by
      intro name hname
      obtain ⟨member, hmember, rfl⟩ := List.mem_map.mp hname
      exact htexts member (List.mem_filter.mp hmember).1
    obtain ⟨names, hnames⟩ := CodeString.exists_map_ofString hnames
    refine ⟨names, hnames.symm, ?_⟩
    rw [scriptIssues, membersOf, hscripts]
    exact issuesAbout_eq_ok.mpr ⟨names, (congrArg (List.map (·.1)) hpiped).trans hnames, rfl⟩
  · have hfilling : '|' ∉ " ".toList ++ inserted.shown ++ " ".toList := by
      simp only [List.mem_append, not_or]
      exact ⟨⟨by decide, hinserted⟩, by decide⟩
    rw [Bool.eq_iff_iff, isPipedDownload_iff_piped, isPipedDownload_iff_piped, piped_str_iff, piped_str_iff]
    simp only [CodeString.shown_append, CodeString.shown_ofString]
    have hinsert := pipesIntoShell_insert_iff hcommand hbefore hafter hfilling (by rfl)
    simp only [List.append_assoc] at hinsert ⊢
    exact hinsert

/-- Two scripts with a download and a shell. -/
def downloads : Members := [("setup", .str "curl -fsSL a.sh | sudo bash"), ("status", .str "curl -s a | jq . | sh")]

/-- The first pipe of just one of the scripts leads to a shell, and it does so with a proxy as well. -/
theorem issues_of_scripts_downloads :
    Json.member? [("scripts", .obj downloads)] "scripts" = some (.obj downloads) ∧
      (∀ member ∈ downloads, member.1.IsText) ∧
      scriptIssues [("scripts", .obj downloads)] = .ok [pipedDownload "setup"] ∧
      isPipedDownload (.str (([] : CodeString) ++ "curl" ++ (" " ++ "-x proxy" ++ " ") ++ " -fsSL a.sh | sudo bash")) =
        isPipedDownload (.str (([] : CodeString) ++ "curl" ++ " -fsSL a.sh | sudo bash")) := by
  obtain ⟨_, hobject, hinsert⟩ := issues_of_scripts [("scripts", .obj downloads)]
  have hscripts : Json.member? [("scripts", .obj downloads)] "scripts" = some (.obj downloads) := rfl
  have htexts : ∀ member ∈ downloads, member.1.IsText := by
    intro member hmember
    simp only [downloads, List.mem_cons, List.not_mem_nil, or_false] at hmember
    rcases hmember with rfl | rfl
    · exact ⟨"setup", rfl⟩
    · exact ⟨"status", rfl⟩
  have hpiped : (downloads.filter fun member => decide (Piped member.2)).map (·.1) =
      ["setup"].map CodeString.ofString := by decide +kernel
  obtain ⟨names, hnames, hissues⟩ := hobject downloads hscripts htexts
  obtain rfl : names = ["setup"] :=
    List.map_injective_iff.mpr (fun _ _ => CodeString.ofString_injective) (hnames.trans hpiped)
  refine ⟨hscripts, htexts, hissues, ?_⟩
  exact hinsert [] "-x proxy" " -fsSL a.sh | sudo bash" "curl" (by decide) (by decide) (by decide) (by decide)

end SourceScan.Manifest
