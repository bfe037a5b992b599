import Mathlib.Data.List.Nodup
import Mathlib.Logic.Relation
import SourceScan.Check.Requirements
import SourceScan.Proofs.Text.Items
import SourceScan.Proofs.Text.LetterCase

/-!
# What is found in a list of required packages

The findings on a list of lines depend on the names alone that the lines ask for, written small, and not on their
order (`issues_joinLines`, `issuesOn_perm`). So they are the same after any changes that leave these names as they
are: lines in another order, lines that ask for nothing, blanks around a line, letters in another case
(`Change`, `perm_requested`). What they are is said in `issues_of_lines`, of the lines as they stand in the file.
-/

namespace SourceScan.Requirements

/-- Whether a line asks for a package: it has a character that is no blank, and the first of these begins neither a
comment nor an option. -/
def asks (line : List Char) : Bool := (line.dropWhile Text.isBlank).head?.any fun c => c != '#' && c != '-'

/-- The name in a line: from its first character that is no blank up to the next blank, or the first sign of a version
or an extra. -/
def nameIn (line : List Char) : List Char :=
  (line.dropWhile Text.isBlank).takeWhile fun c => !(Text.isBlank c || "<>=!~;[".toList.contains c)

/-- The names that lines ask for, in lower case, one to a line that asks for a package. -/
def requested (ls : List (List Char)) : List (List Char) :=
  (ls.filter asks).map fun line => Text.lowerChars (nameIn line)

/-- The findings on requirements of these names. -/
def issuesOn (names : List (List Char)) : List Issue :=
  (if maxRequirements < names.length then [tooMany names.length] else []) ++
    (heavyPackages.filter fun name => names.contains name.toList).map heavyPackage

/-- One change to a list of lines: another order, a line more that asks for nothing, spaces and tabs around a line, or
ASCII letters of a line in another case. -/
inductive Change : List (List Char) → List (List Char) → Prop
  | reorder {ls ls' : List (List Char)} (h : ls.Perm ls') : Change ls ls'
  | idle (before after : List (List Char)) {line : List Char} (h : asks line = false) :
    Change (before ++ after) (before ++ line :: after)
  | margins (before after : List (List Char)) (line : List Char) {left right : List Char}
    (hleft : left ⊆ [' ', '\t']) (hright : right ⊆ [' ', '\t']) :
    Change (before ++ line :: after) (before ++ (left ++ line ++ right) :: after)
  | letters (before after : List (List Char)) {line line' : List Char}
    (h : line.map Char.toLower = line'.map Char.toLower) :
    Change (before ++ line :: after) (before ++ line' :: after)

variable {ls ls' : List (List Char)} {line line' : List Char} {names names' : List (List Char)}

/-! ## The names decide -/

theorem isRequirement_strip (line : List Char) : isRequirement (Text.strip line) = asks line := by
  rw [isRequirement, Text.head?_strip]
  show _ = (Text.stripStart line).head?.any _
  cases (Text.stripStart line).head? <;> rfl

theorem packageName_strip (line : List Char) :
    packageName (Text.strip line) = String.ofList (Text.lowerChars (nameIn line)) := by
  have hends : ∀ c, Text.isBlank c = true → (!endsName c) = false := by
    intro c hc
    rw [endsName, hc]
    rfl
  rw [packageName, Text.takeWhile_strip hends]
  rfl

/-- The requirements in lines put together are the lines that ask for a package, without their margins. -/
theorem ofText_joinLines (h : Text.Unbroken ls) : ofText (Text.joinLines ls) = (ls.filter asks).map Text.strip := by
  have hasks : isRequirement ∘ Text.strip = asks := funext isRequirement_strip
  rw [ofText, List.filter_map, hasks]
  rcases Text.paragraphs_joinLines h with heq | heq
  · rw [heq]
  · -- An empty line at the end asks for nothing.
    have hlast : (Text.paragraphs (Text.joinLines ls) ++ [[]]).filter asks = ls.filter asks := by rw [heq]
    rw [← hlast, List.filter_append]
    exact congrArg _ (List.append_nil _).symm

/-- The findings on lines put together are those on the names that they ask for. -/
theorem issues_joinLines (h : Text.Unbroken ls) : issues (Text.joinLines ls) = issuesOn (requested ls) := by
  have hnames : (ofText (Text.joinLines ls)).map packageName = (requested ls).map String.ofList := by
    rw [ofText_joinLines h, requested, List.map_map, List.map_map]
    exact List.map_congr_left fun line _ => packageName_strip line
  have hlength : (ofText (Text.joinLines ls)).length = (requested ls).length := by
    rw [ofText_joinLines h, requested, List.length_map, List.length_map]
  have hheavy : ((requested ls).map String.ofList).contains = fun name => (requested ls).contains name.toList := by
    funext name
    rw [Bool.eq_iff_iff, List.contains_iff_mem, List.contains_iff_mem, List.mem_map]
    constructor
    · rintro ⟨cs, hcs, rfl⟩
      rw [String.toList_ofList]
      exact hcs
    · exact fun hname => ⟨_, hname, String.ofList_toList⟩
  simp only [issues, issuesOn, hnames, hlength, hheavy]

/-- The order of the names makes no difference. -/
theorem issuesOn_perm (h : names.Perm names') : issuesOn names = issuesOn names' := by
  have hcontains : ∀ name, names.contains name = names'.contains name := by
    intro name
    rw [Bool.eq_iff_iff, List.contains_iff_mem, List.contains_iff_mem, h.mem_iff]
  simp only [issuesOn, h.length_eq, hcontains]

/-! ## Changes that leave the names as they are -/

theorem blanks_of_subset {margin : List Char} (h : margin ⊆ [' ', '\t']) : Text.Blanks margin := by
  intro c hc
  have hall : [' ', '\t'].all Text.isBlank = true := by decide
  exact List.all_eq_true.mp hall c (h hc)

/-- Whether a line asks for a package and for which one is a matter of the line without its margins. -/
theorem asks_of_strip (h : Text.strip line = Text.strip line') : asks line = asks line' := by
  rw [← isRequirement_strip, ← isRequirement_strip, h]

theorem nameIn_of_strip (h : Text.strip line = Text.strip line') : nameIn line = nameIn line' := by
  have hstops : ∀ c, Text.isBlank c = true → (!(Text.isBlank c || "<>=!~;[".toList.contains c)) = false := by
    intro c hc
    rw [hc]
    rfl
  exact (Text.takeWhile_strip hstops line).symm.trans ((congrArg _ h).trans (Text.takeWhile_strip hstops line'))

theorem asks_map_toLower (line : List Char) : asks (line.map Char.toLower) = asks line := by
  have hbegins : (fun c : Char => c.toLower != '#' && c.toLower != '-') = fun c => c != '#' && c != '-' :=
    funext (Text.eq_toLower_of_capitals (fun c => c != '#' && c != '-') (by decide))
  rw [asks, Text.dropWhile_map_toLower Text.isBlank_toLower, List.head?_map, Option.any_map, hbegins]
  rfl

theorem lowerChars_nameIn_map_toLower (line : List Char) :
    Text.lowerChars (nameIn (line.map Char.toLower)) = Text.lowerChars (nameIn line) := by
  have hstops := Text.eq_toLower_of_capitals (fun c => !(Text.isBlank c || "<>=!~;[".toList.contains c)) (by decide)
  rw [nameIn, Text.dropWhile_map_toLower Text.isBlank_toLower, Text.takeWhile_map_toLower hstops,
    Text.lowerChars_map_toLower]
  rfl

theorem requested_append (ls ls' : List (List Char)) : requested (ls ++ ls') = requested ls ++ requested ls' := by
  rw [requested, List.filter_append, List.map_append]
  rfl

/-- A line in place of another one that asks for the same. -/
theorem requested_replace (hasks : asks line = asks line')
    (hname : Text.lowerChars (nameIn line) = Text.lowerChars (nameIn line')) (before after : List (List Char)) :
    requested (before ++ line :: after) = requested (before ++ line' :: after) := by
  rw [requested_append, requested_append]
  simp only [requested, List.filter_cons, hasks]
  split
  · rw [List.map_cons, List.map_cons, hname]
  · rfl

/-- A change leaves the names as they are, but for their order. -/
theorem Change.perm_requested (h : Change ls ls') : (requested ls).Perm (requested ls') := by
  cases h with
  | reorder h => exact (h.filter asks).map _
  | idle before after h =>
    rw [requested_append, requested_append, requested, requested, requested, List.filter_cons, h]
    exact List.Perm.refl _
  | margins before after line hleft hright =>
    have hstrip := Text.strip_margins (blanks_of_subset hleft) (blanks_of_subset hright) line
    rw [requested_replace (asks_of_strip hstrip) (congrArg _ (nameIn_of_strip hstrip))]
  | letters before after h =>
    rw [requested_replace]
    · rw [← asks_map_toLower, h, asks_map_toLower]
    · rw [← lowerChars_nameIn_map_toLower, h, lowerChars_nameIn_map_toLower]

/-- So do any number of changes, made or taken back. -/
theorem perm_requested (h : Relation.EqvGen Change ls ls') : (requested ls).Perm (requested ls') := by
  induction h with
  | rel _ _ h => exact h.perm_requested
  | refl => exact List.Perm.refl _
  | symm _ _ _ ih => exact ih.symm
  | trans _ _ _ _ _ ih ih' => exact ih.trans ih'

theorem mem_requested {name : List Char} : name ∈ requested ls ↔
    ∃ line ∈ ls, asks line = true ∧ Text.lowerChars (nameIn line) = name := by
  simp only [requested, List.mem_map, List.mem_filter, and_assoc]

/-- **What is found in a list of lines.** Let no line hold a line break, and let the lines be put together with line
feeds. The findings stay the same after any number of changes, made or taken back, that end in lines without line
breaks: lines in another order, lines that ask for nothing, spaces and tabs around a line, letters in another case.
There is a finding on the number of requirements if more than 30 lines ask for a package, and it comes first. Then
there is one finding on each heavy package, in the order of the table, if a line asks for a name that is this one in
lower case. -/
theorem issues_of_lines (ls : List (List Char)) (h : Text.Unbroken ls) :
    (∀ ls', Text.Unbroken ls' → Relation.EqvGen Change ls ls' →
      issues (Text.joinLines ls') = issues (Text.joinLines ls)) ∧
    ∃ found : List String, found.Sublist heavyPackages ∧ found.Nodup ∧
      (∀ name, name ∈ found ↔ name ∈ heavyPackages ∧
        ∃ line ∈ ls, asks line = true ∧ Text.lowerChars (nameIn line) = name.toList) ∧
      issues (Text.joinLines ls) =
        (if 30 < (ls.filter asks).length then [tooMany (ls.filter asks).length] else []) ++ found.map heavyPackage := by
  refine ⟨fun ls' h' hchanges => ?_, ?_⟩
  · rw [issues_joinLines h, issues_joinLines h', issuesOn_perm (perm_requested hchanges)]
  · have hsublist : (heavyPackages.filter fun name => (requested ls).contains name.toList).Sublist heavyPackages :=
      List.filter_sublist
    have hcount : (requested ls).length = (ls.filter asks).length := List.length_map _
    refine ⟨_, hsublist, hsublist.nodup (by decide), fun name => ?_, ?_⟩
    · rw [List.mem_filter, List.contains_iff_mem, mem_requested]
    · rw [issues_joinLines h, issuesOn, hcount]
      rfl

/-- A heavy package behind a comment, and the same one written otherwise and in another place. -/
theorem issues_of_lines_rewritten :
    Text.Unbroken ["# maths".toList, "Torch>=2".toList, "flask".toList] ∧
      Text.Unbroken ["flask".toList, "\ttorch>=2 ".toList] ∧
      Relation.EqvGen Change ["# maths".toList, "Torch>=2".toList, "flask".toList]
        ["flask".toList, "\ttorch>=2 ".toList] ∧
      issues (Text.joinLines ["flask".toList, "\ttorch>=2 ".toList]) = [heavyPackage "torch"] := by
  have hbefore : Text.Unbroken ["# maths".toList, "Torch>=2".toList, "flask".toList] := by decide
  have hafter : Text.Unbroken ["flask".toList, "\ttorch>=2 ".toList] := by decide
  have hcomment : Change ["Torch>=2".toList, "flask".toList] ["# maths".toList, "Torch>=2".toList, "flask".toList] :=
    .idle [] _ (by decide)
  have hletters : Change ["Torch>=2".toList, "flask".toList] ["torch>=2".toList, "flask".toList] :=
    .letters [] _ (by decide)
  have hmargins : Change ["torch>=2".toList, "flask".toList] ["\ttorch>=2 ".toList, "flask".toList] :=
    @Change.margins [] _ _ ['\t'] [' '] (by decide) (by decide)
  have hreorder : Change ["\ttorch>=2 ".toList, "flask".toList] ["flask".toList, "\ttorch>=2 ".toList] :=
    .reorder (.swap _ _ _)
  have hchanges : Relation.EqvGen Change ["# maths".toList, "Torch>=2".toList, "flask".toList]
      ["flask".toList, "\ttorch>=2 ".toList] :=
    .trans _ _ _ (.symm _ _ (.rel _ _ hcomment)) (.trans _ _ _ (.rel _ _ hletters)
      (.trans _ _ _ (.rel _ _ hmargins) (.rel _ _ hreorder)))
  refine ⟨hbefore, hafter, hchanges, ?_⟩
  rw [(issues_of_lines _ hbefore).1 _ hafter hchanges]
  decide +kernel

end SourceScan.Requirements
