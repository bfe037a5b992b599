import Mathlib.Algebra.GroupWithZero.Nat
import SourceScan.Text.CharClass

/-!
# Places in a text

A place of a text has some text before it, and some text comes next. `places` counts the places at which a
relation holds of the two, and places of several kinds that exclude each other are counted apart (`places_or`,
`places_exists_mem`).

What comes next is often said as a keyword with two parts after it. Whether a text can be cut so that the parts
have some property can be tried out, since it has only as many cuts as it has places.
-/

namespace SourceScan.Text

variable {P Q : List Char → List Char → Prop} {cs text : List Char} {c : Char}

/-- Whether a word character ends the text. -/
def endsInWord (cs : List Char) : Bool := cs.getLast?.any isWord

/-- Whether a word character begins the text. -/
def beginsInWord (cs : List Char) : Bool := cs.head?.any isWord

theorem beginsInWord_append (h : beginsInWord cs = true) (rest : List Char) : beginsInWord (cs ++ rest) = true := by
  unfold beginsInWord at h ⊢
  obtain ⟨c, hc, hword⟩ := (Option.any_eq_true _ _).mp h
  rw [List.head?_append, hc, Option.some_or]
  exact hword

/-- Behind another text, a text ends in a word as it does alone, if it has an end of its own. -/
theorem endsInWord_append (hne : cs ≠ []) (before : List Char) : endsInWord (before ++ cs) = endsInWord cs := by
  unfold endsInWord
  rw [List.getLast?_append, List.getLast?_eq_some_getLast hne, Option.some_or]

/-- The end of a text that ends in no word ends in none. -/
theorem endsInWord_of_append {before : List Char} (h : endsInWord (before ++ cs) = false) : endsInWord cs = false := by
  rcases eq_or_ne cs [] with rfl | hne
  · rfl
  · exact (endsInWord_append hne before).symm.trans h

/-- A text of word characters begins and ends in a word. -/
theorem inWord_of_forall (hne : cs ≠ []) (h : ∀ c ∈ cs, isWord c = true) :
    beginsInWord cs = true ∧ endsInWord cs = true := by
  unfold beginsInWord endsInWord
  rw [List.head?_eq_some_head hne, List.getLast?_eq_some_getLast hne]
  exact ⟨h _ (List.head_mem hne), h _ (List.getLast_mem hne)⟩

/-! ## Counting places -/

/-- At how many places of a text the relation holds of what is before and of what comes next. The end of the text,
where nothing comes next, is not counted. -/
def places (P : List Char → List Char → Prop) [DecidableRel P] (text : List Char) : Nat :=
  (List.range text.length).countP fun i => decide (P (text.take i) (text.drop i))

/-- Where one of two things holds, but never both, the places of the two are counted together. -/
theorem places_or [DecidableRel P] [DecidableRel Q] (h : ∀ before rest, P before rest → ¬Q before rest)
    (text : List Char) : places (fun before rest => P before rest ∨ Q before rest) text =
      places P text + places Q text := by
  unfold places
  induction List.range text.length with
  | nil => rfl
  | cons i is ih =>
    rw [List.countP_cons, List.countP_cons, List.countP_cons, ih]
    have hboth := h (text.take i) (text.drop i)
    by_cases hP : P (text.take i) (text.drop i)
    · simp only [hP, hboth hP, or_false, decide_true, decide_false, if_true, Bool.false_eq_true, if_false]
      omega
    · simp only [hP, false_or, decide_false, Bool.false_eq_true, if_false]
      omega

theorem places_congr [DecidableRel P] [DecidableRel Q] (h : ∀ before rest, P before rest ↔ Q before rest)
    (text : List Char) : places P text = places Q text :=
  List.countP_congr fun _ _ => by rw [decide_eq_true_eq, decide_eq_true_eq, h]

/-- Where of several things no two hold at one place, the places of each are counted apart. -/
theorem places_exists_mem {α : Type} {R : α → List Char → List Char → Prop} [∀ x, DecidableRel (R x)] {xs : List α}
    (h : xs.Pairwise fun x y => ∀ before rest, R x before rest → ¬R y before rest) (text : List Char) :
    places (fun before rest => ∃ x ∈ xs, R x before rest) text = (xs.map fun x => places (R x) text).sum := by
  induction xs with
  | nil => exact List.countP_eq_zero.mpr fun _ _ h => nomatch of_decide_eq_true h
  | cons x xs ih =>
    obtain ⟨hfirst, hlater⟩ := List.pairwise_cons.mp h
    have hapart : ∀ before rest, R x before rest → ¬∃ y ∈ xs, R y before rest :=
      fun before rest hx ⟨y, hy, hR⟩ => hfirst y hy before rest hx hR
    have hcons : ∀ before rest, (∃ y ∈ x :: xs, R y before rest) ↔ R x before rest ∨ ∃ y ∈ xs, R y before rest :=
      fun before rest => by simp only [List.mem_cons, exists_eq_or_imp]
    rw [List.map_cons, List.sum_cons, ← ih hlater, ← places_or hapart]
    exact places_congr hcons text

/-! ## Cutting what comes next -/

/-- Text without a character comes before the first one of it. -/
theorem exists_of_append_eq_append_cons {xs ys us vs : List Char} (hnot : c ∉ xs) (heq : xs ++ ys = us ++ c :: vs) :
    ∃ later, us = xs ++ later ∧ ys = later ++ c :: vs := by
  rcases List.append_eq_append_iff.mp heq with ⟨later, hus, hys⟩ | ⟨later, hxs, hcons⟩
  · exact ⟨later, hus, hys⟩
  · cases later with
    | nil => exact ⟨[], by rw [hxs, List.append_nil, List.append_nil], hcons.symm⟩
    | cons d later =>
      obtain ⟨rfl, _⟩ := List.cons.inj hcons
      exact absurd (hxs ▸ List.mem_append_right us List.mem_cons_self) hnot

theorem exists_parts_iff [DecidableRel P] (keyword : List Char) :
    (∃ first second, text = keyword ++ first ++ second ∧ P first second) ↔
      (keyword.isPrefixOf text && (List.range (text.length + 1)).any fun n =>
        decide (P ((text.drop keyword.length).take n) ((text.drop keyword.length).drop n))) = true := by
  rw [Bool.and_eq_true, List.isPrefixOf_iff_prefix, List.any_eq_true]
  simp only [decide_eq_true_eq]
  constructor
  · rintro ⟨first, second, rfl, h⟩
    rw [List.append_assoc, List.drop_left]
    refine ⟨List.prefix_append _ _, first.length, List.mem_range.mpr ?_, ?_⟩
    · rw [List.length_append, List.length_append]
      omega
    · rw [List.take_left, List.drop_left]
      exact h
  · rintro ⟨⟨rest, rfl⟩, n, _, h⟩
    rw [List.drop_left] at h
    exact ⟨rest.take n, rest.drop n, by rw [List.append_assoc, List.take_append_drop], h⟩

instance decidableParts [DecidableRel P] (keyword text : List Char) :
    Decidable (∃ first second, text = keyword ++ first ++ second ∧ P first second) :=
  decidable_of_iff _ (exists_parts_iff keyword).symm

/-- The text has blanks only. -/
def Blanks (cs : List Char) : Prop := ∀ c ∈ cs, isBlank c = true

-- The characters of the text are tried out, not all characters there are.
instance : DecidablePred Blanks := fun _ => decidable_of_iff _ List.all_eq_true

/-- The text begins with the keyword and then, perhaps behind blanks, with the mark. -/
def Leads (keyword : String) (mark : Char) (text : List Char) : Prop :=
  ∃ blanks after, text = keyword.toList ++ blanks ++ after ∧
    (Blanks blanks ∧ after.head? = some mark)

theorem Leads.isPrefix {keyword : String} (h : Leads keyword c text) : keyword.toList <+: text := by
  obtain ⟨blanks, after, rfl, _⟩ := h
  rw [List.append_assoc]
  exact List.prefix_append _ _

instance (keyword : String) (mark : Char) (text : List Char) : Decidable (Leads keyword mark text) :=
  inferInstanceAs (Decidable (∃ blanks after, text = keyword.toList ++ blanks ++ after ∧
    (Blanks blanks ∧ after.head? = some mark)))

end SourceScan.Text
