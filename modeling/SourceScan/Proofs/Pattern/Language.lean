import Mathlib.Data.List.Forall2
import SourceScan.Proofs.Function.HeaderName
import SourceScan.Proofs.Text.Places

/-!
# The texts that a pattern describes

`Pattern.Describes` says which pieces a pattern describes, constructor by constructor and without the text in
which they stand. A pattern that asks for nothing around its pieces (`plain`) spans them wherever they stand
(`spans_iff_describes`), so it occurs in the texts that have such a piece in them (`occursIn_iff_describes`).

A boundary at a place is a matter of the characters at either side of it (`isBoundary_append`), and what must not come
next is a matter of the text there (`occursIn_notAhead_iff`). What else a
pattern may ask for around its pieces is not treated here.
-/

namespace SourceScan.Pattern

variable {p q : Pattern} {ps : List Pattern} {s : CharSet} {before rest cs text : List Char} {k : Nat}

/-- The pattern asks for nothing around its pieces. -/
def plain : Pattern → Bool
  | empty | char _ | run _ => true
  | seq p q | alt p q => p.plain && q.plain
  | many p => p.plain
  | boundary | atStart | atEnd | notAhead _ => false

/-- The pattern describes the characters as a piece, apart from what it asks for around them. -/
def Describes : Pattern → List Char → Prop
  | char s, cs => ∃ c, s.contains c = true ∧ cs = [c]
  | seq p q, cs => ∃ first second, p.Describes first ∧ q.Describes second ∧ cs = first ++ second
  | alt p q, cs => p.Describes cs ∨ q.Describes cs
  | run s, cs => ∀ c ∈ cs, s.contains c = true
  | many p, cs => ∃ pieces : List (List Char), (∀ piece ∈ pieces, p.Describes piece) ∧ cs = pieces.flatten
  | empty, cs | boundary, cs | atStart, cs | atEnd, cs | notAhead _, cs => cs = []

/-! ## Pieces in a text -/

/-- A run from a place takes up the characters of some piece that comes there. -/
theorem spans_run_iff :
    Spans (before ++ rest).toArray (run s) before.length k ↔
      ∃ piece after, (run s).Describes piece ∧ rest = piece ++ after ∧ k = (before ++ piece).length := by
  constructor
  · intro h
    obtain ⟨n, rfl⟩ := Nat.exists_eq_add_of_le h.le
    have hn : n ≤ rest.length := by
      have hsize : before.length ≤ (before ++ rest).toArray.size := by
        rw [List.size_toArray, List.length_append]
        exact Nat.le_add_right _ _
      have hend := h.le_size hsize
      rw [List.size_toArray, List.length_append] at hend
      omega
    refine ⟨rest.take n, rest.drop n, fun c hc => ?_, (List.take_append_drop n rest).symm, ?_⟩
    · obtain ⟨m, hm, rfl⟩ := List.mem_take_iff_getElem.mp hc
      have hchar := h.2 (before.length + m) (Nat.le_add_right _ _) (by omega)
      rw [charAt_eq_any, List.getElem?_toArray, List.getElem?_append_right (Nat.le_add_right _ _),
        Nat.add_sub_cancel_left, List.getElem?_eq_getElem (by omega)] at hchar
      exact hchar
    · rw [List.length_append, List.length_take, Nat.min_eq_left hn]
  · rintro ⟨piece, after, hpiece, rfl, rfl⟩
    rw [← List.append_assoc]
    exact spans_run_append before piece after hpiece

/-- A repetition takes up one piece after the other, if the pattern that is repeated spans the pieces it describes. -/
theorem spans_many_iff
    (hp : ∀ before rest k, Spans (before ++ rest).toArray p before.length k ↔
      ∃ piece after, p.Describes piece ∧ rest = piece ++ after ∧ k = (before ++ piece).length)
    (before rest : List Char) :
    Spans (before ++ rest).toArray (many p) before.length k ↔
      ∃ piece after, (many p).Describes piece ∧ rest = piece ++ after ∧ k = (before ++ piece).length := by
  constructor
  · intro hchain
    replace hchain : Chain (Spans (before ++ rest).toArray p) before.length k := hchain
    generalize htext : (before ++ rest).toArray = t at hchain
    generalize hstart : before.length = i at hchain
    induction hchain generalizing before rest with
    | nil =>
      subst hstart
      exact ⟨[], rest, ⟨[], nofun, rfl⟩, rfl, by rw [List.append_nil]⟩
    | cons hstep _ ihrest =>
      subst htext hstart
      obtain ⟨piece, later, hdescribes, rfl, rfl⟩ := (hp before rest _).mp hstep
      obtain ⟨_, after, ⟨pieces, hall, rfl⟩, rfl, rfl⟩ :=
        ihrest (before ++ piece) later (by rw [List.append_assoc]) rfl
      exact ⟨piece ++ pieces.flatten, after, ⟨piece :: pieces, List.forall_mem_cons.mpr ⟨hdescribes, hall⟩, rfl⟩,
        by rw [List.append_assoc], by rw [List.append_assoc]⟩
  · rintro ⟨_, after, ⟨pieces, hall, rfl⟩, rfl, rfl⟩
    show Chain _ _ _
    induction pieces generalizing before with
    | nil =>
      rw [List.flatten_nil, List.append_nil]
      exact .nil _
    | cons piece pieces ihrest =>
      obtain ⟨hfirst, hlater⟩ := List.forall_mem_cons.mp hall
      have hrest := ihrest (before ++ piece) hlater
      rw [List.append_assoc, List.append_assoc] at hrest
      rw [List.flatten_cons, List.append_assoc]
      exact .cons ((hp before _ _).mpr ⟨piece, _, hfirst, rfl, rfl⟩) hrest

/-- **What a plain pattern spans.** From a place it spans the pieces that it describes and that come there,
whatever stands before and after them. -/
theorem spans_iff_describes (hp : p.plain = true) (before rest : List Char) {k : Nat} :
    Spans (before ++ rest).toArray p before.length k ↔
      ∃ piece after, p.Describes piece ∧ rest = piece ++ after ∧ k = (before ++ piece).length := by
  induction p generalizing before rest k with
  | empty =>
    constructor
    · rintro rfl
      exact ⟨[], rest, rfl, rfl, by rw [List.append_nil]⟩
    · rintro ⟨_, _, rfl, _, rfl⟩
      rw [List.append_nil]
      rfl
  | char s =>
    show charAt _ s before.length = true ∧ k = before.length + 1 ↔ _
    rw [charAt_append]
    constructor
    · rintro ⟨hchar, rfl⟩
      obtain ⟨c, hc, hs⟩ := (Option.any_eq_true _ _).mp hchar
      obtain ⟨after, rfl⟩ := List.head?_eq_some_iff.mp hc
      exact ⟨[c], after, ⟨c, hs, rfl⟩, rfl, by rw [List.length_append, List.length_singleton]⟩
    · rintro ⟨_, after, ⟨c, hs, rfl⟩, rfl, rfl⟩
      exact ⟨hs, by rw [List.length_append, List.length_singleton]⟩
  | seq p q ihp ihq =>
    obtain ⟨hp, hq⟩ := Bool.and_eq_true_iff.mp hp
    constructor
    · rintro ⟨m, hfirst, hsecond⟩
      obtain ⟨first, later, hdescribes, rfl, rfl⟩ := (ihp hp before rest).mp hfirst
      rw [← List.append_assoc] at hsecond
      obtain ⟨second, after, hdescribes', rfl, rfl⟩ := (ihq hq (before ++ first) later).mp hsecond
      exact ⟨first ++ second, after, ⟨first, second, hdescribes, hdescribes', rfl⟩, by rw [List.append_assoc],
        by rw [List.append_assoc]⟩
    · rintro ⟨_, after, ⟨first, second, hdescribes, hdescribes', rfl⟩, rfl, rfl⟩
      refine ⟨(before ++ first).length, (ihp hp before _).mpr ⟨first, second ++ after, hdescribes, ?_, rfl⟩, ?_⟩
      · rw [List.append_assoc]
      · rw [List.append_assoc first, ← List.append_assoc before]
        exact (ihq hq (before ++ first) _).mpr ⟨second, after, hdescribes', rfl, by rw [List.append_assoc]⟩
  | alt p q ihp ihq =>
    obtain ⟨hp, hq⟩ := Bool.and_eq_true_iff.mp hp
    show Spans _ p _ _ ∨ Spans _ q _ _ ↔ _
    rw [ihp hp, ihq hq]
    simp only [Describes, or_and_right, exists_or]
  | run s => exact spans_run_iff
  | many p ih => exact spans_many_iff (fun before rest _ => ih hp before rest) before rest
  | boundary | atStart | atEnd | notAhead p => cases hp

/-- A pattern occurs in a text that can be cut in two where a piece of it begins. -/
theorem occursIn_iff_begins :
    OccursIn text.toArray p ↔
      ∃ before rest, text = before ++ rest ∧ ∃ k, Spans (before ++ rest).toArray p before.length k := by
  constructor
  · rintro ⟨i, k, hi, hspans⟩
    have hlength : (text.take i).length = i := by
      rw [List.length_take]
      exact Nat.min_eq_left hi
    refine ⟨text.take i, text.drop i, (List.take_append_drop i text).symm, k, ?_⟩
    rw [List.take_append_drop, hlength]
    exact hspans
  · rintro ⟨before, rest, rfl, k, hspans⟩
    refine ⟨before.length, k, ?_, hspans⟩
    rw [List.size_toArray, List.length_append]
    exact Nat.le_add_right _ _

/-- A plain pattern occurs in the texts that have a piece in them that it describes. -/
theorem occursIn_iff_describes (hp : p.plain = true) :
    OccursIn text.toArray p ↔ ∃ before piece after, text = before ++ piece ++ after ∧ p.Describes piece := by
  rw [occursIn_iff_begins]
  constructor
  · rintro ⟨before, rest, rfl, k, hspans⟩
    obtain ⟨piece, after, hdescribes, rfl, _⟩ := (spans_iff_describes hp before rest).mp hspans
    exact ⟨before, piece, after, (List.append_assoc _ _ _).symm, hdescribes⟩
  · rintro ⟨before, piece, after, rfl, hdescribes⟩
    have hspans := (spans_iff_describes hp before (piece ++ after)).mpr ⟨piece, after, hdescribes, rfl, rfl⟩
    exact ⟨before, piece ++ after, List.append_assoc _ _ _, _, hspans⟩

/-- A plain pattern that another one must not follow occurs where what comes after it begins with no piece of that
other one. -/
theorem occursIn_notAhead_iff (hp : p.plain = true) (hq : q.plain = true) :
    OccursIn text.toArray (seq p (notAhead q)) ↔
      ∃ before piece after, text = before ++ piece ++ after ∧ p.Describes piece ∧
        ∀ first, q.Describes first → ¬first <+: after := by
  -- The pattern looks at what comes after the piece, with all that comes before it in the text as well.
  have hahead : ∀ (before piece after : List Char), (∀ k, ¬Spans (before ++ (piece ++ after)).toArray q
      (before ++ piece).length k) ↔ ∀ first, q.Describes first → ¬first <+: after := by
    intro before piece after
    rw [← List.append_assoc]
    constructor
    · rintro hnone first hfirst ⟨later, rfl⟩
      exact hnone _ ((spans_iff_describes hq _ _).mpr ⟨first, later, hfirst, rfl, rfl⟩)
    · intro hnone k hspans
      obtain ⟨first, later, hfirst, rfl, _⟩ := (spans_iff_describes hq _ _).mp hspans
      exact hnone first hfirst (List.prefix_append _ _)
  rw [occursIn_iff_begins]
  constructor
  · rintro ⟨before, rest, rfl, _, _, hspans, hnone, rfl⟩
    obtain ⟨piece, after, hdescribes, rfl, rfl⟩ := (spans_iff_describes hp before rest).mp hspans
    exact ⟨before, piece, after, (List.append_assoc _ _ _).symm, hdescribes, (hahead before piece after).mp hnone⟩
  · rintro ⟨before, piece, after, rfl, hdescribes, hnone⟩
    have hspans := (spans_iff_describes hp before (piece ++ after)).mpr ⟨piece, after, hdescribes, rfl, rfl⟩
    have hends := (hahead before piece after).mpr hnone
    exact ⟨before, piece ++ after, List.append_assoc _ _ _, _, _, hspans, hends, rfl⟩

/-! ## Boundaries of words -/

/-- Where a word begins or ends, of the texts at either side just one has a word character there. -/
theorem isBoundary_append (before rest : List Char) : isBoundary (before ++ rest).toArray before.length =
    (Text.endsInWord before != Text.beginsInWord rest) := by
  have hafter : wordAfter (before ++ rest).toArray before.length = Text.beginsInWord rest := by
    rw [wordAfter_eq_any, List.getElem?_toArray, List.getElem?_append_right (Nat.le_refl _), Nat.sub_self]
    exact congrArg (Option.any Text.isWord) List.head?_eq_getElem?.symm
  have hbefore : wordBefore (before ++ rest).toArray before.length = Text.endsInWord before := by
    unfold wordBefore
    split
    · next hzero =>
      rw [List.length_eq_zero_iff.mp (beq_iff_eq.mp hzero)]
      rfl
    · next hpos =>
      have hne : before.length ≠ 0 := by simpa using hpos
      rw [wordAfter_eq_any, List.getElem?_toArray, List.getElem?_append_left (by omega)]
      exact congrArg (Option.any Text.isWord) List.getLast?_eq_getElem?.symm
  unfold isBoundary
  rw [hbefore, hafter]

/-- Before a word character there is a boundary if no word goes on from before. -/
theorem isBoundary_before_iff (hrest : Text.beginsInWord rest = true) (before : List Char) :
    isBoundary (before ++ rest).toArray before.length = true ↔ Text.endsInWord before = false := by
  rw [isBoundary_append, hrest, Bool.bne_true, Bool.not_eq_true']

/-- After a word character there is a boundary if the word does not go on. -/
theorem isBoundary_after_iff (hbefore : Text.endsInWord before = true) (rest : List Char) :
    isBoundary (before ++ rest).toArray before.length = true ↔ Text.beginsInWord rest = false := by
  rw [isBoundary_append, hbefore, Bool.true_bne, Bool.not_eq_true']

/-! ## What the ways to write a pattern describe -/

theorem plain_inOrder (ps : List Pattern) : (inOrder ps).plain = ps.all plain := by
  induction ps with
  | nil => rfl
  | cons p ps ih =>
    rw [List.all_cons, ← ih]
    cases ps with
    | nil => exact (Bool.and_true _).symm
    | cons q ps => rfl

theorem plain_lit (word : String) : (lit word).plain = true := by
  unfold lit
  rw [plain_inOrder, List.all_map]
  exact List.all_eq_true.mpr fun _ _ => rfl

theorem describes_inOrder_cons :
    (inOrder (p :: ps)).Describes cs ↔
      ∃ first second, p.Describes first ∧ (inOrder ps).Describes second ∧ cs = first ++ second := by
  cases ps with
  | nil => exact ⟨fun h => ⟨cs, [], h, rfl, (List.append_nil cs).symm⟩, fun ⟨_, _, h, hnil, heq⟩ => by
      rw [heq, show _ = [] from hnil, List.append_nil]
      exact h⟩
  | cons q ps => exact Iff.rfl

/-- Sets in a row describe the texts with one character of each of them. -/
theorem describes_chars_iff {sets : List CharSet} :
    (inOrder (sets.map char)).Describes cs ↔ List.Forall₂ (fun s c => s.contains c = true) sets cs := by
  induction sets generalizing cs with
  | nil => exact List.forall₂_nil_left_iff.symm
  | cons s sets ih =>
    rw [List.map_cons, describes_inOrder_cons, List.forall₂_cons_left_iff]
    constructor
    · rintro ⟨_, second, ⟨c, hc, rfl⟩, hsecond, rfl⟩
      exact ⟨c, second, hc, ih.mp hsecond, rfl⟩
    · rintro ⟨c, second, hc, hsecond, rfl⟩
      exact ⟨[c], second, ⟨c, hc, rfl⟩, ih.mpr hsecond, rfl⟩

theorem describes_lit_iff {word : String} : (lit word).Describes cs ↔ cs = word.toList := by
  have hsets : lit word = inOrder ((word.toList.map CharSet.single).map char) := by
    rw [List.map_map]
    rfl
  have hsingle : ∀ c d, (CharSet.single c).contains d = true ↔ c = d := fun c d => beq_iff_eq.trans eq_comm
  rw [hsets, describes_chars_iff, List.forall₂_map_left_iff]
  simp only [hsingle, List.forall₂_eq_eq_eq]
  exact eq_comm

theorem describes_oneOf_iff : (oneOf ps).Describes cs ↔ ∃ p ∈ ps, p.Describes cs := by
  induction ps with
  | nil => exact ⟨fun ⟨_, hnone, _⟩ => (nomatch hnone), fun ⟨_, hmem, _⟩ => (nomatch hmem)⟩
  | cons p ps ih =>
    rw [List.exists_mem_cons_iff, ← ih]
    cases ps with
    | nil => exact ⟨.inl, fun h => h.elim id fun ⟨_, hnone, _⟩ => (nomatch hnone)⟩
    | cons q ps => exact Iff.rfl

theorem describes_atLeast_one_iff :
    (atLeast 1 s).Describes cs ↔ cs ≠ [] ∧ ∀ c ∈ cs, s.contains c = true := by
  constructor
  · rintro ⟨_, second, ⟨c, hc, rfl⟩, hall, rfl⟩
    exact ⟨List.cons_ne_nil c second, List.forall_mem_cons.mpr ⟨hc, hall⟩⟩
  · rintro ⟨hne, hall⟩
    obtain ⟨c, second, rfl⟩ := List.exists_cons_of_ne_nil hne
    obtain ⟨hc, hsecond⟩ := List.forall_mem_cons.mp hall
    exact ⟨[c], second, ⟨c, hc, rfl⟩, hsecond, rfl⟩

/-- A run of all characters but one is a text without that one. -/
theorem describes_without_iff {d : Char} : (run (.compl (.single d))).Describes cs ↔ d ∉ cs := by
  show (∀ c ∈ cs, (!(c == d)) = true) ↔ _
  simp only [Bool.not_eq_true', beq_eq_false_iff_ne]
  exact ⟨fun h hmem => h _ hmem rfl, fun h c hc heq => h (heq ▸ hc)⟩

/-- A part of one line is a text without line feeds. -/
theorem describes_sameLine_iff : sameLine.Describes cs ↔ '\n' ∉ cs := describes_without_iff

/-! ## Keywords -/

/-- The characters of a keyword begin where they come next. -/
theorem begins_lit_iff (keyword : String) (before rest : List Char) :
    (∃ k, Spans (before ++ rest).toArray (lit keyword) before.length k) ↔ keyword.toList <+: rest := by
  constructor
  · rintro ⟨_, hspans⟩
    obtain ⟨_, after, hlit, rfl, _⟩ := (spans_iff_describes (plain_lit keyword) before rest).mp hspans
    obtain rfl := describes_lit_iff.mp hlit
    exact List.prefix_append _ _
  · rintro ⟨after, rfl⟩
    exact ⟨_, (spans_iff_describes (plain_lit keyword) before _).mpr ⟨_, after, describes_lit_iff.mpr rfl, rfl, rfl⟩⟩

/-- A keyword that a word begins with is found where no word goes on from before, and what the rest of the pattern
describes comes after it. -/
theorem begins_keyword_iff {keyword : String} (hkeyword : Text.beginsInWord keyword.toList = true)
    (hp : p.plain = true) (before rest : List Char) :
    (∃ k, Spans (before ++ rest).toArray (seq boundary (seq (lit keyword) p)) before.length k) ↔
      Text.endsInWord before = false ∧
        ∃ piece after, p.Describes piece ∧ rest = keyword.toList ++ piece ++ after := by
  have hplain : (seq (lit keyword) p).plain = true := Bool.and_eq_true_iff.mpr ⟨plain_lit keyword, hp⟩
  have hboundary : ∀ later, isBoundary (before ++ (keyword.toList ++ later)).toArray before.length = true ↔
      Text.endsInWord before = false := fun later =>
    isBoundary_before_iff (Text.beginsInWord_append hkeyword later) before
  constructor
  · rintro ⟨_, _, ⟨hb, rfl⟩, hspans⟩
    obtain ⟨_, after, ⟨_, piece, hlit, hpiece, rfl⟩, rfl, _⟩ := (spans_iff_describes hplain before rest).mp hspans
    obtain rfl := describes_lit_iff.mp hlit
    rw [List.append_assoc] at hb
    exact ⟨(hboundary _).mp hb, piece, after, hpiece, rfl⟩
  · rintro ⟨hb, piece, after, hpiece, rfl⟩
    have hdescribes : (seq (lit keyword) p).Describes (keyword.toList ++ piece) :=
      ⟨_, piece, describes_lit_iff.mpr rfl, hpiece, rfl⟩
    have hspans := (spans_iff_describes hplain before _).mpr ⟨_, after, hdescribes, rfl, rfl⟩
    rw [List.append_assoc] at hspans ⊢
    exact ⟨_, _, ⟨(hboundary _).mpr hb, rfl⟩, hspans⟩

/-- A keyword leads to a mark if what comes after it begins with blanks, if any, and the mark. -/
theorem leads_iff_describes (keyword mark : String) {c : Char} (hmark : mark.toList = [c]) :
    Text.Leads keyword c rest ↔
      ∃ piece after, (seq blanks (lit mark)).Describes piece ∧ rest = keyword.toList ++ piece ++ after := by
  constructor
  · rintro ⟨gap, _, rfl, hgap, hnext⟩
    obtain ⟨after, rfl⟩ := List.head?_eq_some_iff.mp hnext
    refine ⟨gap ++ [c], after, ⟨gap, [c], hgap, describes_lit_iff.mpr hmark.symm, rfl⟩, ?_⟩
    simp only [List.append_assoc, List.singleton_append]
  · rintro ⟨_, after, ⟨gap, _, hgap, hlit, rfl⟩, rfl⟩
    obtain rfl := (describes_lit_iff.mp hlit).trans hmark
    refine ⟨gap, c :: after, ?_, hgap, rfl⟩
    simp only [List.append_assoc, List.singleton_append]

/-- The pieces of a keyword and a mark begin where the one leads to the other. -/
theorem begins_leads_iff (keyword mark : String) {c : Char} (hmark : mark.toList = [c]) (before rest : List Char) :
    (∃ k, Spans (before ++ rest).toArray (seq (lit keyword) (seq blanks (lit mark))) before.length k) ↔
      Text.Leads keyword c rest := by
  have hplain : (seq (lit keyword) (seq blanks (lit mark))).plain = true :=
    Bool.and_eq_true_iff.mpr ⟨plain_lit keyword, plain_lit mark⟩
  rw [leads_iff_describes keyword mark hmark]
  constructor
  · rintro ⟨_, hspans⟩
    obtain ⟨_, after, ⟨_, piece, hlit, hpiece, rfl⟩, rfl, _⟩ := (spans_iff_describes hplain before rest).mp hspans
    obtain rfl := describes_lit_iff.mp hlit
    exact ⟨piece, after, hpiece, rfl⟩
  · rintro ⟨piece, after, hpiece, rfl⟩
    have hdescribes : (seq (lit keyword) (seq blanks (lit mark))).Describes (keyword.toList ++ piece) :=
      ⟨_, piece, describes_lit_iff.mpr rfl, hpiece, rfl⟩
    exact ⟨_, (spans_iff_describes hplain before _).mpr ⟨_, after, hdescribes, rfl, rfl⟩⟩

end SourceScan.Pattern
