import SourceScan.Proofs.Function.Bounds
import SourceScan.Proofs.Pattern.Context

/-!
# The name in a header

A header may span a line in several ways, for the blanks between two parts can go to either of them. The name
is the same in all of them if the lead has one end only where a word begins, and if what follows the name
begins with no word character (`Header.name?_eq`): the name is the whole word at that end.

Where a run of characters ends before one that it does not take, it has no other such end
(`Pattern.Spans.end_unique`). That settles where a keyword and its blanks end before a word.
-/

namespace SourceScan

namespace Text

variable {c : Char}

/-- The code points of the blanks. -/
def blankCodes : List Nat :=
  List.range' 9 5 ++ List.range' 28 5 ++ [0x85, 0xA0, 0x1680] ++ List.range' 0x2000 11 ++
    [0x2028, 0x2029, 0x202F, 0x205F, 0x3000]

theorem mem_blankCodes (h : isBlank c = true) : c.toNat ∈ blankCodes := by
  simp only [isBlank, isWhiteSpace, Bool.or_eq_true, Bool.and_eq_true, decide_eq_true_eq, beq_iff_eq] at h
  simp only [blankCodes, List.mem_append, List.mem_range'_1, List.mem_cons, List.not_mem_nil, or_false]
  omega

theorem not_mem_of_isWord {ds : List Char} (h : isWord c = true) (hds : ds.any isWord = false) : c ∉ ds :=
  fun hmem => List.any_eq_false.mp hds c hmem h

/-- No blank is a word character. -/
theorem not_isWord_of_isBlank (h : isBlank c = true) : isWord c = false := by
  have hall : ∀ n ∈ blankCodes, isWord (Char.ofNat n) = false := by decide +kernel
  have hword := hall c.toNat (mem_blankCodes h)
  rwa [Char.ofNat_toNat] at hword

end Text

namespace Pattern

variable {t : Array Char} {p : Pattern} {s : CharSet} {cs : List Char} {i j j' k : Nat} {c : Char}

/-! ## Words and blanks written out -/

theorem charAt_single : charAt t (.single c) i = true ↔ t[i]? = some c := by
  rw [charAt_eq_any]
  cases t[i]? with
  | none => exact ⟨nofun, nofun⟩
  | some d => simp [CharSet.contains]

theorem spans_inOrder_cons {ps : List Pattern} :
    Spans t (inOrder (p :: ps)) i k ↔ ∃ j, Spans t p i j ∧ Spans t (inOrder ps) j k := by
  cases ps with
  | nil => exact ⟨fun h => ⟨k, h, rfl⟩, fun ⟨_, h, hk⟩ => hk ▸ h⟩
  | cons q ps => exact Iff.rfl

theorem spans_chars_iff :
    Spans t (inOrder (cs.map fun c => char (.single c))) i j ↔ cs <+: t.toList.drop i ∧ j = i + cs.length := by
  induction cs generalizing i with
  | nil => exact ⟨fun h => ⟨List.nil_prefix, h.symm⟩, fun h => h.2.symm⟩
  | cons c cs ih =>
    rw [List.map_cons, spans_inOrder_cons, List.length_cons]
    simp only [ih, Spans, charAt_single]
    constructor
    · rintro ⟨_, ⟨hc, rfl⟩, hrest, rfl⟩
      obtain ⟨hi, rfl⟩ := Array.getElem?_eq_some_iff.mp hc
      refine ⟨?_, by omega⟩
      rw [List.drop_eq_getElem_cons (by rw [Array.length_toList]; exact hi)]
      exact List.cons_prefix_cons.mpr ⟨rfl, hrest⟩
    · rintro ⟨hstarts, rfl⟩
      have hi : i < t.toList.length := by
        have hle := hstarts.length_le
        rw [List.length_cons, List.length_drop] at hle
        omega
      rw [List.drop_eq_getElem_cons hi] at hstarts
      obtain ⟨rfl, hrest⟩ := List.cons_prefix_cons.mp hstarts
      exact ⟨i + 1, ⟨Array.getElem?_eq_getElem hi, rfl⟩, hrest, by omega⟩

/-- What a string spans begins with its characters and is as long as it. -/
theorem spans_lit_iff {s : String} :
    Spans t (lit s) i j ↔ s.toList <+: t.toList.drop i ∧ j = i + s.toList.length := spans_chars_iff

theorem spans_atLeast_one_iff :
    Spans t (atLeast 1 s) i j ↔ i < j ∧ ∀ k, i ≤ k → k < j → charAt t s k = true := by
  constructor
  · rintro ⟨m, ⟨hfirst, rfl⟩, hle, hall⟩
    refine ⟨hle, fun k hk hlt => ?_⟩
    rcases Nat.eq_or_lt_of_le hk with rfl | hk
    · exact hfirst
    · exact hall k hk hlt
  · rintro ⟨hlt, hall⟩
    exact ⟨i + 1, ⟨hall i (Nat.le_refl i) hlt, rfl⟩, hlt, fun k hk => hall k (Nat.le_of_succ_le hk)⟩

theorem spans_run_nil (t : Array Char) (s : CharSet) (i : Nat) : Spans t (run s) i i :=
  ⟨Nat.le_refl i, fun _ hle hlt => absurd hle (Nat.not_le_of_lt hlt)⟩

theorem spans_run_of_atLeast_one (h : Spans t (atLeast 1 s) i j) : Spans t (run s) i j :=
  ⟨h.le, (spans_atLeast_one_iff.mp h).2⟩

/-- A word begins with a word character. -/
theorem charAt_of_word1 (h : Spans t word1 i j) : charAt t .word i = true :=
  (spans_atLeast_one_iff.mp h).2 i (Nat.le_refl i) (spans_atLeast_one_iff.mp h).1

/-- A piece that is not empty begins with none of the characters that no first one is. -/
theorem Spans.not_charAt (h : Spans t p i j) (hp : p.nullable = false)
    (hdisjoint : ∀ c, p.first.any (·.contains c) = true → s.contains c = false) : charAt t s i = false := by
  obtain ⟨begins, hfirst, hchar⟩ := Spans.charAt_first p h (Spans.lt_of_not_nullable p h hp)
  rw [charAt_eq_any] at hchar ⊢
  obtain ⟨c, hc, hbegins⟩ := (Option.any_eq_true _ _).mp hchar
  rw [hc, Option.any_some]
  exact hdisjoint c (by rw [hfirst]; exact hbegins)

/-- Where a word goes on, no blank comes next. -/
theorem not_blank_of_word (h : charAt t .word i = true) : charAt t .blank i = false := by
  rw [charAt_eq_any] at h ⊢
  obtain ⟨c, hc, hword⟩ := (Option.any_eq_true _ _).mp h
  rw [hc, Option.any_some]
  apply Bool.eq_false_iff.mpr
  intro hblank
  exact Bool.false_ne_true ((Text.not_isWord_of_isBlank hblank).symm.trans hword)

theorem charAt_append (before after : List Char) :
    charAt (before ++ after).toArray s before.length = after.head?.any s.contains := by
  rw [charAt_eq_any, List.getElem?_toArray, List.getElem?_append_right (Nat.le_refl _), Nat.sub_self,
    List.head?_eq_getElem?]

/-- Characters of a set that stand in a text are a run. -/
theorem spans_run_append (before piece after : List Char) (hpiece : ∀ c ∈ piece, s.contains c = true) :
    Spans (before ++ piece ++ after).toArray (run s) before.length (before ++ piece).length := by
  refine ⟨by rw [List.length_append]; exact Nat.le_add_right _ _, fun k hle hlt => ?_⟩
  rw [List.length_append] at hlt
  have hk : k - before.length < piece.length := by omega
  rw [charAt_eq_any, List.getElem?_toArray, List.append_assoc, List.getElem?_append_right hle,
    List.getElem?_append_left hk, List.getElem?_eq_getElem hk]
  exact hpiece _ (List.getElem_mem hk)

/-! ## Where a piece ends -/

/-- Runs from one place that end before characters they do not take end at the same place. -/
theorem Spans.end_unique (h : Spans t (run s) i j) (h' : Spans t (run s) i j') (hj : charAt t s j = false)
    (hj' : charAt t s j' = false) : j = j' :=
  Nat.le_antisymm (le_of_run h.2 h'.1 hj') (le_of_run h'.2 h.1 hj)

/-- A piece that is not empty begins with a character of the first set, so where none of them comes next the
piece is empty. -/
theorem Spans.eq_of_next (h : Spans t p i j) (hc : t[i]? = some c)
    (hp : p.first.any (·.contains c) = false) : i = j := by
  apply Classical.byContradiction
  intro hne
  have hle := h.le
  obtain ⟨s, hs, hchar⟩ := Spans.charAt_first p h (by omega)
  rw [charAt_eq_any, hc] at hchar
  rw [hs] at hp
  exact Bool.false_ne_true (hp.symm.trans hchar)

/-- A piece that is not empty does not begin where none of its first characters comes next. -/
theorem not_spans_of_next (hc : t[i]? = some c) (hfirst : p.first.any (·.contains c) = false)
    (hp : p.nullable = false) : ¬Spans t p i j := by
  intro h
  have hlt := Spans.lt_of_not_nullable p h hp
  rw [h.eq_of_next hc hfirst] at hlt
  exact Nat.lt_irrefl j hlt

end Pattern

namespace Header

open Pattern

variable {h : Header} {line : Array Char} {lead name rest : List Char} {i j j' k : Nat} {s : String}

/-- A line in which no name is found reads as the header with no name. -/
theorem not_names_of_name? (hname : h.name? line = none) (s : String) : ¬h.Names line s := by
  rintro ⟨i, j, k, hlead, hword, htail, _⟩
  rw [name?, List.findSome?_eq_none_iff] at hname
  have hnone := List.findSome?_eq_none_iff.mp (hname i (mem_endsFrom.mpr hlead)) j (mem_endsFrom.mpr hword)
  split at hnone
  · next hempty =>
    have hmem := mem_endsFrom.mpr htail
    rw [List.isEmpty_iff.mp hempty] at hmem
    cases hmem
  · cases hnone

/-- **The name of a header line.** It is the word at the one end of the lead at which a word begins, if what
follows a name begins with no word character. -/
theorem name?_eq (hlead : Spans line h.lead 0 i) (hword : Spans line word1 i j)
    (htail : Spans line h.tail j k)
    (hstart : ∀ m, Spans line h.lead 0 m → charAt line .word m = true → m = i)
    (hend : ∀ m k, Spans line h.tail m k → charAt line .word m = false) :
    h.name? line = some (String.ofList (line.extract i j).toList) := by
  cases hname : h.name? line with
  | none => exact absurd ⟨i, j, k, hlead, hword, htail, rfl⟩ (not_names_of_name? hname _)
  | some name =>
    obtain ⟨i', j', k', hlead', hword', htail', rfl⟩ := names_of_name? hname
    obtain rfl := hstart i' hlead' (charAt_of_word1 hword')
    obtain rfl : j' = j := Spans.end_unique (spans_run_of_atLeast_one hword') (spans_run_of_atLeast_one hword)
      (hend j' k' htail') (hend j k htail)
    rfl

/-- A header has no name in a line that it does not lead through to what follows a name. -/
theorem name?_eq_none (hnot : ∀ i j k, Spans line h.lead 0 i → Spans line word1 i j → ¬Spans line h.tail j k) :
    h.name? line = none := by
  cases hname : h.name? line with
  | none => rfl
  | some name =>
    obtain ⟨i, j, k, hlead, hword, htail, _⟩ := names_of_name? hname
    exact absurd htail (hnot i j k hlead hword)

/-- The name of a header line written out as what comes before the name, the name and the rest. -/
theorem name?_append (hne : name ≠ []) (hword : ∀ c ∈ name, Text.isWord c = true)
    (hlead : Spans (lead ++ name ++ rest).toArray h.lead 0 lead.length)
    (htail : Spans (lead ++ name ++ rest).toArray h.tail (lead ++ name).length k)
    (hstart : ∀ m, Spans (lead ++ name ++ rest).toArray h.lead 0 m →
      charAt (lead ++ name ++ rest).toArray .word m = true → m = lead.length)
    (hend : ∀ m k, Spans (lead ++ name ++ rest).toArray h.tail m k →
      charAt (lead ++ name ++ rest).toArray .word m = false) :
    h.name? (lead ++ name ++ rest).toArray = some (String.ofList name) := by
  have hrun : Spans (lead ++ name ++ rest).toArray (run .word) lead.length (lead ++ name).length :=
    spans_run_append lead name rest hword
  have hlt : lead.length < (lead ++ name).length := by
    have hpos := List.length_pos_iff.mpr hne
    rw [List.length_append]
    omega
  have hextract : ((lead ++ name ++ rest).toArray.extract lead.length (lead ++ name).length).toList = name := by
    rw [Array.toList_extract, List.extract_eq_take_drop, List.append_assoc, List.drop_left, List.length_append,
      Nat.add_sub_cancel_left, List.take_left]
  rw [name?_eq hlead (spans_atLeast_one_iff.mpr ⟨hlt, hrun.2⟩) htail hstart hend, hextract]

theorem not_word_of_openCall (h : Spans line openCall j k) : charAt line .word j = false := by
  refine h.not_charAt rfl fun c hc => ?_
  rcases Bool.or_eq_true_iff.mp hc with hc | hc
  · exact Text.not_isWord_of_isBlank hc
  · rw [beq_iff_eq.mp hc]
    rfl

theorem not_word_of_openList (h : Spans line openList j k) : charAt line .word j = false := by
  refine h.not_charAt rfl fun c hc => ?_
  rcases Bool.or_eq_true_iff.mp hc with hc | hc
  · exact Text.not_isWord_of_isBlank hc
  · rcases Bool.or_eq_true_iff.mp hc with hc | hc <;> rw [beq_iff_eq.mp hc] <;> rfl

/-- A keyword and its blanks have one end before a character that is no blank. -/
theorem keyword_end_unique (h : Spans line (keyword s) i j) (h' : Spans line (keyword s) i j')
    (hj : charAt line .blank j = false) (hj' : charAt line .blank j' = false) : j = j' := by
  obtain ⟨m, hm, hblanks⟩ := h
  obtain ⟨m', hm', hblanks'⟩ := h'
  obtain rfl := (spans_lit_iff.mp hm).2
  obtain rfl := (spans_lit_iff.mp hm').2
  exact Spans.end_unique (spans_run_of_atLeast_one hblanks) (spans_run_of_atLeast_one hblanks') hj hj'

end Header

end SourceScan
