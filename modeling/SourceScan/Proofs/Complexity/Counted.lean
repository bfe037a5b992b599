import Mathlib.Data.List.SplitBy
import SourceScan.Proofs.Complexity.Joined
import SourceScan.Proofs.Pattern.Apart
import SourceScan.Proofs.Pattern.Language
import SourceScan.Proofs.Text.ChangedLine

/-!
# What the score counts

The score is a search for seven patterns, each from the left and without overlap. What it comes to can be said
without a search (`score_eq_places`):

* every place counts where one of four keywords begins that a bracket follows, and every place where an `else if`
  with its bracket begins;
* a run of `n` ampersands, or of `n` bars, counts as `n / 2` operators;
* a stretch of text up to a colon counts once if a label ends there, however many times `case` comes before it.

Pieces of the keywords' patterns cannot overlap. Two operators in a run do, and so do the labels that end at one
colon; for these the largest number of pieces one after the other is found run by run and colon by colon.
-/

namespace SourceScan.Complexity

open Pattern

variable {t : Array Char} {text before rest segment : List Char} {keyword : String} {c : Char} {i k m n : Nat}

/-! ## Keywords -/

/-- The keywords at which the flow may branch if a bracket follows. -/
def branchKeywords : List String := ["if", "while", "for", "catch"]

/-- A word begins at the place with the keyword, and a bracket follows it, perhaps behind blanks. -/
def BranchAt (keyword : String) (before rest : List Char) : Prop :=
  Text.endsInWord before = false ∧ Text.Leads keyword '(' rest

instance (keyword : String) : DecidableRel (BranchAt keyword) := fun _ _ => inferInstanceAs (Decidable (_ ∧ _))

/-- A word begins at the place with `else`, then come blanks, then an `if` that a bracket follows. -/
def ElseIfAt (before rest : List Char) : Prop :=
  Text.endsInWord before = false ∧ ∃ blanks after, rest = "else".toList ++ blanks ++ after ∧
    (blanks ≠ [] ∧ Text.Blanks blanks ∧ Text.Leads "if" '(' after)

instance : DecidableRel ElseIfAt := fun _ rest => inferInstanceAs (Decidable (_ ∧
  ∃ blanks after, rest = "else".toList ++ blanks ++ after ∧
    (blanks ≠ [] ∧ Text.Blanks blanks ∧ Text.Leads "if" '(' after)))

/-! ## Operators -/

/-- The number of operators in a text: half the length, rounded down, of each stretch of ampersands and of each
stretch of bars, none of which can be made longer. -/
def operatorPairs (text : List Char) : Nat :=
  (((text.splitBy (· == ·)).filter fun run => run.head? == some '&' || run.head? == some '|').map
    (·.length / 2)).sum

/-! ## Labels -/

/-- A word begins at the place with `case`, and all that comes after that are blanks, one at least, and then at
least one character more on one line. -/
def LabelAt (before rest : List Char) : Prop :=
  Text.endsInWord before = false ∧ ∃ blanks label, rest = "case".toList ++ blanks ++ label ∧
    (blanks ≠ [] ∧ Text.Blanks blanks ∧ label ≠ [] ∧ '\n' ∉ label)

instance : DecidableRel LabelAt := fun _ rest => inferInstanceAs (Decidable (_ ∧
  ∃ blanks label, rest = "case".toList ++ blanks ++ label ∧
    (blanks ≠ [] ∧ Text.Blanks blanks ∧ label ≠ [] ∧ '\n' ∉ label)))

/-- A label ends with the segment. -/
def EndsLabel (segment : List Char) : Prop := ∃ before rest, segment = before ++ rest ∧ LabelAt before rest

instance : DecidablePred EndsLabel := fun segment => inferInstanceAs (Decidable
  (∃ before rest, segment = [] ++ before ++ rest ∧ LabelAt before rest))

/-- The number of labels in a text: the stretches of it up to a colon, from the one before or from the start, with
which a label ends. -/
def labels (text : List Char) : Nat := (text.splitOn ':').dropLast.countP fun segment => decide (EndsLabel segment)

/-! ## Counting keywords -/

/-- A keyword's pieces begin where a branch does. -/
theorem begins_bracketed_iff (hkeyword : Text.beginsInWord keyword.toList = true) (before rest : List Char) :
    (∃ k, Spans (before ++ rest).toArray (bracketed keyword) before.length k) ↔ BranchAt keyword before rest := by
  refine (begins_keyword_iff (p := seq blanks (lit "(")) hkeyword rfl before rest).trans ?_
  exact and_congr_right fun _ => (leads_iff_describes keyword "(" (c := '(') rfl).symm

/-- The pieces of `else if` begin where one is. -/
theorem begins_elseIf_iff (before rest : List Char) :
    (∃ k, Spans (before ++ rest).toArray
      (inOrder [boundary, lit "else", blanks1, lit "if", blanks, lit "("]) before.length k) ↔
        ElseIfAt before rest := by
  refine (begins_keyword_iff (p := inOrder [blanks1, lit "if", blanks, lit "("]) (by decide) rfl before rest).trans ?_
  refine and_congr_right fun _ => ⟨?_, ?_⟩
  · rintro ⟨_, after, ⟨gap, _, hgap, ⟨_, piece, hif, hpiece, rfl⟩, rfl⟩, rfl⟩
    obtain rfl := describes_lit_iff.mp hif
    obtain ⟨hne, hblanks⟩ := describes_atLeast_one_iff.mp hgap
    have hleads := (leads_iff_describes "if" "(" (c := '(') rfl).mpr ⟨piece, after, hpiece, rfl⟩
    exact ⟨gap, "if".toList ++ piece ++ after, by simp only [List.append_assoc], hne, hblanks, hleads⟩
  · rintro ⟨gap, _, rfl, hne, hblanks, hleads⟩
    obtain ⟨piece, after, hpiece, rfl⟩ := (leads_iff_describes "if" "(" (c := '(') rfl).mp hleads
    refine ⟨gap ++ ("if".toList ++ piece), after, ?_, by simp only [List.append_assoc]⟩
    have hgap : blanks1.Describes gap := describes_atLeast_one_iff.mpr ⟨hne, hblanks⟩
    exact ⟨gap, _, hgap, ⟨_, piece, describes_lit_iff.mpr rfl, hpiece, rfl⟩, rfl⟩

/-- As many tokens are counted as there are places where one begins, if a token begins with a word that does not
begin again in it. -/
theorem count_eq_places {p : Pattern} {P : List Char → List Char → Prop} [DecidableRel P] (hp : p ∈ tokens)
    (hword : p.opensWord = true)
    (hbegins : ∀ before rest, (∃ k, Spans (before ++ rest).toArray p before.length k) ↔ P before rest)
    (text : List Char) : p.count text.toArray = Text.places P text := by
  have hsome := nullable_of_mem_tokens hp
  exact (most_places hsome (apart_of_opensWord hword) hbegins).count_eq hsome (orderly_of_mem_tokens hp)

theorem count_bracketed (hkeyword : keyword ∈ branchKeywords) (text : List Char) :
    (bracketed keyword).count text.toArray = Text.places (BranchAt keyword) text := by
  have hforms : ∀ keyword ∈ branchKeywords, bracketed keyword ∈ tokens ∧ (bracketed keyword).opensWord = true ∧
      Text.beginsInWord keyword.toList = true := by decide
  obtain ⟨htoken, hform, hword⟩ := hforms keyword hkeyword
  exact count_eq_places htoken hform (begins_bracketed_iff hword) text

theorem count_elseIf (text : List Char) :
    (inOrder [boundary, lit "else", blanks1, lit "if", blanks, lit "("]).count text.toArray =
      Text.places ElseIfAt text :=
  count_eq_places (by decide) (by decide) begins_elseIf_iff text

/-! ## Counting operators -/

/-- Two ampersands, or two bars. -/
def operator : Pattern := lit "&&" ||| lit "||"

/-- A text that begins with a run of a character: the run, and what comes after it. -/
theorem exists_run (c : Char) (cs : List Char) :
    ∃ n rest, c :: cs = List.replicate (n + 1) c ++ rest ∧ rest.head? ≠ some c := by
  induction cs with
  | nil => exact ⟨0, [], rfl, nofun⟩
  | cons d cs ih =>
    by_cases hd : d = c
    · subst hd
      obtain ⟨n, rest, heq, hrest⟩ := ih
      exact ⟨n + 1, rest, by rw [heq]; rfl, hrest⟩
    · refine ⟨0, d :: cs, rfl, ?_⟩
      rw [List.head?_cons]
      exact fun heq => hd (Option.some.inj heq)

/-- A run adds half its length if it is one of ampersands or of bars, and nothing else. -/
theorem operatorPairs_run (hrest : rest.head? ≠ some c) :
    operatorPairs (List.replicate (n + 1) c ++ rest) =
      (if c = '&' ∨ c = '|' then (n + 1) / 2 else 0) + operatorPairs rest := by
  have hsplit : (List.replicate (n + 1) c ++ rest).splitBy (· == ·) =
      List.replicate (n + 1) c :: rest.splitBy (· == ·) := by
    have hne : List.replicate (n + 1) c ≠ [] := List.cons_ne_nil c _
    rw [List.splitBy_append, List.splitBy_of_isChain hne (List.isChain_replicate_of_rel _ (beq_self_eq_true c))]
    · rfl
    · intro x hx y hy
      obtain rfl := List.eq_of_mem_replicate (List.mem_of_getLast? hx)
      apply beq_false_of_ne
      rintro rfl
      exact hrest hy
  have hoperator : ((List.replicate (n + 1) c).head? == some '&' || (List.replicate (n + 1) c).head? == some '|') =
      decide (c = '&' ∨ c = '|') := by
    rw [List.replicate_succ, List.head?_cons, Bool.decide_or]
    rfl
  unfold operatorPairs
  rw [hsplit, List.filter_cons, hoperator]
  simp only [decide_eq_true_eq]
  split
  · rw [List.map_cons, List.sum_cons, List.length_replicate]
  · exact (Nat.zero_add _).symm

/-- An operator is an ampersand or a bar with the same character after it. -/
theorem spans_operator_iff :
    Spans t operator i k ↔ k = i + 2 ∧ ∃ c, (c = '&' ∨ c = '|') ∧ t[i]? = some c ∧ t[i + 1]? = some c := by
  have hpair : ∀ {c : Char}, Spans t (seq (char (.single c)) (char (.single c))) i k ↔
      k = i + 2 ∧ t[i]? = some c ∧ t[i + 1]? = some c := by
    intro c
    constructor
    · rintro ⟨_, ⟨hfirst, rfl⟩, hsecond, rfl⟩
      exact ⟨rfl, charAt_single.mp hfirst, charAt_single.mp hsecond⟩
    · rintro ⟨rfl, hfirst, hsecond⟩
      exact ⟨i + 1, ⟨charAt_single.mpr hfirst, rfl⟩, charAt_single.mpr hsecond, rfl⟩
  show Spans t (seq (char (.single '&')) (char (.single '&'))) i k ∨
    Spans t (seq (char (.single '|')) (char (.single '|'))) i k ↔ _
  rw [hpair, hpair, ← and_or_left]
  simp only [or_and_right, exists_or, exists_eq_left]

/-- In a run of ampersands or of bars, an operator begins at every second character from the first one on. -/
theorem most_run (hc : c = '&' ∨ c = '|') (hrun : ∀ x, i ≤ x → x < i + n → t[x]? = some c)
    (hend : t[i + n]? ≠ some c) (h : Most t operator (i + n) m) : Most t operator i (n / 2 + m) := by
  induction n using Nat.twoStepInduction generalizing i with
  | zero =>
    rw [Nat.zero_div, Nat.zero_add]
    exact h
  | one =>
    rw [show 1 / 2 + m = m from Nat.zero_add m]
    refine h.of_later (Nat.le_succ i) fun x y hle hlt hspans => ?_
    obtain rfl : x = i := by omega
    obtain ⟨_, d, _, hfirst, hsecond⟩ := spans_operator_iff.mp hspans
    obtain rfl := Option.some.inj ((hrun x hle hlt).symm.trans hfirst)
    exact hend hsecond
  | more n ih _ =>
    have hlater : Most t operator (i + 2) (n / 2 + m) := by
      rw [Nat.add_comm n 2, ← Nat.add_assoc] at hend h
      exact ih (fun x hle hlt => hrun x (by omega) (by omega)) hend h
    have hspans : Spans t operator i (i + 2) :=
      spans_operator_iff.mpr ⟨rfl, c, hc, hrun i (Nat.le_refl i) (by omega), hrun (i + 1) (by omega) (by omega)⟩
    rw [show (n + 2) / 2 + m = n / 2 + m + 1 by omega]
    refine hlater.of_first (Nat.le_refl i) hspans fun x y hle hpiece => ?_
    rw [(spans_operator_iff.mp hpiece).1]
    exact Nat.add_le_add_right hle 2

/-- The operators of a text are those of its runs. -/
theorem most_operators (before rest : List Char) :
    Most (before ++ rest).toArray operator before.length (operatorPairs rest) := by
  -- The text is taken run by run, and what comes after a run is shorter.
  induction hlength : rest.length using Nat.strong_induction_on generalizing before rest with
  | _ length ih =>
    cases rest with
    | nil => exact .of_size_le rfl (by rw [List.append_nil, List.size_toArray])
    | cons c cs =>
      obtain ⟨n, rest, hrun, hrest⟩ := exists_run c cs
      have hshorter : rest.length < length := by
        rw [← hlength, hrun, List.length_append, List.length_replicate]
        omega
      have hlater := ih rest.length hshorter (before ++ List.replicate (n + 1) c) rest rfl
      rw [List.append_assoc, List.length_append, List.length_replicate] at hlater
      have hchars : ∀ x, before.length ≤ x → x < before.length + (n + 1) →
          (before ++ (List.replicate (n + 1) c ++ rest)).toArray[x]? = some c := by
        intro x hle hlt
        have hin : x - before.length < (List.replicate (n + 1) c).length := by
          rw [List.length_replicate]
          omega
        rw [List.getElem?_toArray, List.getElem?_append_right hle, List.getElem?_append_left hin,
          List.getElem?_eq_getElem hin, List.getElem_replicate]
      have hend : (before ++ (List.replicate (n + 1) c ++ rest)).toArray[before.length + (n + 1)]? ≠ some c := by
        rw [List.getElem?_toArray, List.getElem?_append_right (Nat.le_add_right _ _), Nat.add_sub_cancel_left,
          List.getElem?_append_right (by rw [List.length_replicate]), List.length_replicate, Nat.sub_self,
          ← List.head?_eq_getElem?]
        exact hrest
      rw [hrun, operatorPairs_run hrest]
      split
      · next hc => exact most_run hc hchars hend hlater
      · next hc =>
        rw [Nat.zero_add]
        refine hlater.of_later (Nat.le_add_right _ _) fun x y hle hlt hspans => ?_
        obtain ⟨_, d, hd, hfirst, _⟩ := spans_operator_iff.mp hspans
        obtain rfl := Option.some.inj ((hchars x hle hlt).symm.trans hfirst)
        exact hc hd

theorem count_operator (text : List Char) : operator.count text.toArray = operatorPairs text :=
  (most_operators [] text).count_eq rfl (orderly_of_mem_tokens (by decide))

/-! ## Counting labels -/

/-- A label of a switch. -/
def label : Pattern :=
  inOrder [boundary, lit "case", blanks1, atLeast 1 (.compl (.ofList [':', '\n'])), lit ":"]

theorem contains_inLabel : (CharSet.compl (.ofList [':', '\n'])).contains c = true ↔ c ≠ ':' ∧ c ≠ '\n' := by
  show (!(c == ':' || c == '\n')) = true ↔ _
  rw [Bool.not_eq_true', Bool.or_eq_false_iff, beq_eq_false_iff_ne, beq_eq_false_iff_ne]

/-- A text is cut in one way only at the first of a character. -/
theorem eq_of_append_cons_eq {xs ys us vs : List Char} (hxs : c ∉ xs) (hys : c ∉ ys)
    (heq : xs ++ c :: us = ys ++ c :: vs) : xs = ys := by
  have hfirst : ∀ {zs}, c ∉ zs → ∀ ws, (zs ++ c :: ws).splitOnP (· == c) = zs :: ws.splitOnP (· == c) := fun h ws =>
    List.splitOnP_append_cons_of_forall_mem (fun x hx => beq_false_of_ne (ne_of_mem_of_not_mem hx h)) c
      (beq_self_eq_true c) ws
  have hsplit := congrArg (List.splitOnP (· == c)) heq
  rw [hfirst hxs, hfirst hys] at hsplit
  exact (List.cons.inj hsplit).1

/-- Before a colon, the pieces of a label begin where there is one up to that colon. -/
theorem begins_label_iff (before rest : List Char) (hcolon : ':' ∉ segment) :
    (∃ k, Spans (before ++ (segment ++ ':' :: rest)).toArray label before.length k) ↔ LabelAt before segment := by
  refine (begins_keyword_iff (p := inOrder [blanks1, atLeast 1 (.compl (.ofList [':', '\n'])), lit ":"])
    (by decide) rfl before _).trans (and_congr_right fun _ => ⟨?_, ?_⟩)
  · rintro ⟨_, after, ⟨gap, _, hgap, ⟨name, mark, hname, hmark, rfl⟩, rfl⟩, heq⟩
    obtain rfl := describes_lit_iff.mp hmark
    obtain ⟨hne, hblanks⟩ := describes_atLeast_one_iff.mp hgap
    obtain ⟨hsome, hchars⟩ := describes_atLeast_one_iff.mp hname
    have hfree : ':' ∉ "case".toList ++ gap ++ name := by
      rw [List.mem_append, List.mem_append]
      rintro ((hmem | hmem) | hmem)
      · exact absurd hmem (by decide)
      · exact absurd (hblanks ':' hmem) (by decide)
      · exact (contains_inLabel.mp (hchars ':' hmem)).1 rfl
    have hcut : segment ++ ':' :: rest = "case".toList ++ gap ++ name ++ ':' :: after := by
      rw [heq]
      simp only [List.append_assoc]
      rfl
    have hline : '\n' ∉ name := fun hmem => (contains_inLabel.mp (hchars '\n' hmem)).2 rfl
    exact ⟨gap, name, eq_of_append_cons_eq hcolon hfree hcut, hne, hblanks, hsome, hline⟩
  · rintro ⟨gap, name, rfl, hne, hblanks, hsome, hline⟩
    have hname : (atLeast 1 (.compl (.ofList [':', '\n']))).Describes name :=
      describes_atLeast_one_iff.mpr ⟨hsome, fun c hc => contains_inLabel.mpr
        ⟨ne_of_mem_of_not_mem (List.mem_append_right _ hc) hcolon, ne_of_mem_of_not_mem hc hline⟩⟩
    have hgap : blanks1.Describes gap := describes_atLeast_one_iff.mpr ⟨hne, hblanks⟩
    have hcolonEnds : (lit ":").Describes ":".toList := describes_lit_iff.mpr rfl
    refine ⟨gap ++ (name ++ ":".toList), rest, ⟨gap, _, hgap, ⟨name, _, hname, hcolonEnds, rfl⟩, rfl⟩, ?_⟩
    simp only [List.append_assoc]
    rfl

/-- Behind a text that no word ends, what comes next is all that matters for a label. -/
theorem labelAt_append (hword : Text.endsInWord before = false) (cs : List Char) :
    LabelAt (before ++ cs) rest ↔ LabelAt cs rest := by
  have hends : Text.endsInWord (before ++ cs) = Text.endsInWord cs := by
    by_cases hcs : cs = []
    · rw [hcs, List.append_nil, hword]
      rfl
    · exact Text.endsInWord_append hcs before
  unfold LabelAt
  rw [hends]

/-- No label ends within a stretch of text without colons. -/
theorem length_lt_of_spans_label (hcolon : ':' ∉ segment) (hle : before.length ≤ i)
    (h : Spans (before ++ (segment ++ rest)).toArray label i k) : (before ++ segment).length < k := by
  obtain ⟨m, rfl, hm, hchar, _⟩ := h.closed (s := .single ':') (by decide)
  apply Nat.lt_succ_of_le
  apply Nat.le_of_not_lt
  intro hlt
  rw [List.length_append] at hlt
  have hin : m - before.length < segment.length := by omega
  rw [charAt_single, List.getElem?_toArray, List.getElem?_append_right (by omega),
    List.getElem?_append_left hin] at hchar
  exact hcolon (List.mem_of_getElem? hchar)

/-- A label that begins in a stretch of text up to a colon ends with that colon. -/
theorem end_eq_of_spans_label (hcolon : ':' ∉ segment) (hle : before.length ≤ i) (hin : i ≤ (before ++ segment).length)
    (h : Spans (before ++ (segment ++ ':' :: rest)).toArray label i k) : k = (before ++ segment).length + 1 := by
  have hlt := length_lt_of_spans_label hcolon hle h
  obtain ⟨m, rfl, _, _, hnone⟩ := h.closed (s := .single ':') (by decide)
  apply Nat.le_antisymm _ hlt
  apply Nat.succ_le_succ
  apply Nat.le_of_not_lt
  intro hpast
  have hchar := hnone _ hin hpast
  rw [← List.append_assoc, charAt_append] at hchar
  cases hchar

/-- A stretch of text up to a colon adds one label, if there is one that ends with it. -/
theorem most_segment (hword : Text.endsInWord before = false) (hcolon : ':' ∉ segment)
    (h : Most (before ++ (segment ++ ':' :: rest)).toArray label ((before ++ segment).length + 1) n) :
    Most (before ++ (segment ++ ':' :: rest)).toArray label before.length
      (n + if EndsLabel segment then 1 else 0) := by
  have hsegment : (before ++ segment).length = before.length + segment.length := List.length_append
  split
  · next hlabel =>
    obtain ⟨cs, later, rfl, hat⟩ := hlabel
    have hlater : ':' ∉ later := fun hmem => hcolon (List.mem_append_right cs hmem)
    obtain ⟨k, hspans⟩ := (begins_label_iff (before ++ cs) rest hlater).mpr ((labelAt_append hword cs).mpr hat)
    have hstart : (before ++ cs).length = before.length + cs.length := List.length_append
    have hend : (cs ++ later).length = cs.length + later.length := List.length_append
    rw [List.append_assoc before, ← List.append_assoc cs] at hspans
    obtain rfl := end_eq_of_spans_label hcolon (by omega) (by omega) hspans
    exact h.of_first (by omega) hspans fun x y hx hpiece => length_lt_of_spans_label hcolon hx hpiece
  · next hlabel =>
    refine h.of_later (by omega) fun x y hx hlt hspans => hlabel ?_
    obtain ⟨cs, later, rfl, rfl⟩ : ∃ cs later, segment = cs ++ later ∧ x = (before ++ cs).length := by
      refine ⟨segment.take (x - before.length), segment.drop (x - before.length), ?_, ?_⟩
      · rw [List.take_append_drop]
      · rw [List.length_append, List.length_take]
        omega
    rw [List.append_assoc cs, ← List.append_assoc before] at hspans
    have hlater : ':' ∉ later := fun hmem => hcolon (List.mem_append_right cs hmem)
    have hat := (begins_label_iff (before ++ cs) rest hlater).mp ⟨y, hspans⟩
    exact ⟨cs, later, rfl, (labelAt_append hword cs).mp hat⟩

/-- The labels of a text are those of its stretches that end with a colon. -/
theorem most_labels (hword : Text.endsInWord before = false) {segments : List (List Char)}
    (hcolon : ∀ segment ∈ segments, ':' ∉ segment) :
    Most (before ++ [':'].intercalate segments).toArray label before.length
      (segments.dropLast.countP fun segment => decide (EndsLabel segment)) := by
  induction segments generalizing before with
  | nil => exact .of_size_le rfl (by rw [List.intercalate_nil, List.append_nil, List.size_toArray])
  | cons segment segments ih =>
    obtain ⟨hfirst, hlater⟩ := List.forall_mem_cons.mp hcolon
    cases segments with
    | nil =>
      have hend : Most (before ++ (segment ++ [])).toArray label (before ++ segment).length 0 :=
        .of_size_le rfl (by rw [List.append_nil, List.size_toArray])
      rw [List.intercalate_singleton, ← List.append_nil segment]
      refine hend.of_later (by rw [List.length_append]; exact Nat.le_add_right _ _) fun x y hle _ hspans => ?_
      have hlt := length_lt_of_spans_label hfirst hle hspans
      have hsize := Spans.bounds label hspans
      rw [List.size_toArray, List.append_nil] at hsize
      omega
    | cons next segments =>
      -- The next segment begins behind a colon, so that no word goes on into it.
      have hcolonEnds : Text.endsInWord (before ++ segment ++ [':']) = false := by
        unfold Text.endsInWord
        rw [List.getLast?_concat]
        decide
      have hrest := ih hcolonEnds hlater
      rw [List.append_assoc, List.length_append, List.length_singleton, List.append_assoc before] at hrest
      rw [List.intercalate_cons_cons, List.dropLast_cons_cons, List.countP_cons, List.append_assoc]
      simp only [decide_eq_true_eq]
      exact most_segment hword hfirst hrest

theorem count_label (text : List Char) : label.count text.toArray = labels text := by
  have hcolon : ∀ segment ∈ text.splitOn ':', ':' ∉ segment := by
    intro segment hsegment hmem
    have hpiece : segment ∈ Text.splitAll (· == ':') text := by
      rw [Text.splitAll_eq_splitOnP]
      exact hsegment
    cases (Text.mem_of_mem_splitAll hpiece hmem).2
  have hstart : Text.endsInWord [] = false := rfl
  have hmost := most_labels hstart hcolon
  rw [List.intercalate_splitOn] at hmost
  exact hmost.count_eq rfl (orderly_of_mem_tokens (by decide))

/-! ## The score -/

/-- No two of the keywords begin at one place. -/
theorem pairwise_branchAt : branchKeywords.Pairwise fun keyword other => ∀ before rest,
    BranchAt keyword before rest → ¬BranchAt other before rest := by
  have hapart : branchKeywords.Pairwise fun keyword other =>
      ¬(keyword.toList <+: other.toList ∨ other.toList <+: keyword.toList) := by decide
  refine hapart.imp fun hne before rest h h' => hne ?_
  exact List.prefix_or_prefix_of_prefix h.2.isPrefix h'.2.isPrefix

/-- **What the score counts.** Less the one that it begins with, it is the number of places where a branch begins
with its keyword, and of those where an `else if` begins, with half the length of each run of ampersands or of bars
and the number of stretches up to a colon with which a label ends. -/
theorem score_eq_places (text : List Char) :
    score text.toArray = 1 +
      (Text.places (fun before rest => ∃ keyword ∈ branchKeywords, BranchAt keyword before rest) text +
        Text.places ElseIfAt text + operatorPairs text + labels text) := by
  have hkeyword : ∀ keyword ∈ branchKeywords, (bracketed keyword).count text.toArray =
      Text.places (BranchAt keyword) text := fun _ hmem => count_bracketed hmem text
  have hif := hkeyword "if" (by decide)
  have hwhile := hkeyword "while" (by decide)
  have hfor := hkeyword "for" (by decide)
  have hcatch := hkeyword "catch" (by decide)
  have hoperator : (lit "&&" ||| lit "||").count text.toArray = operatorPairs text := count_operator text
  have hlabel := count_label text
  unfold label at hlabel
  rw [Text.places_exists_mem pairwise_branchAt]
  simp only [score, tokens, branchKeywords, List.foldl_cons, List.foldl_nil, List.map_cons, List.map_nil, List.sum_cons,
    List.sum_nil, hif, hwhile, hfor, hcatch, count_elseIf, hoperator, hlabel]
  omega

/-- Of five ampersands in a row, the last is in no operator. -/
example : operatorPairs "a &&&&& b".toList = 2 := by decide

/-- One colon ends one label only. -/
example : labels "case case x:y".toList = 1 := by decide +kernel

end SourceScan.Complexity
