import Mathlib.Data.List.Basic
import SourceScan.Proofs.Text.LetterCase
import SourceScan.Tree.FileName

/-!
# Lower case, code point by code point

The lower-case form of a string is put together from those of its code points (`lowers_lower`), so a string can
be taken apart before it is written in lower case or after. `Lowers` is the relation that says so; it forgets
what stands around a code point, and holds of more than one string only where there is a capital sigma
(`Lowers.unique`). The dot and the slash are the lower-case forms of themselves alone (`mem_lowerAt_iff`), so what
they part in a string they part in lower case too.
-/

namespace SourceScan

namespace Text

variable {before after : List Char} {c m : Char}

/-- The characters that part a path into names, and a name from its extension. -/
def IsPartingMark (m : Char) : Prop := m = '.' ∨ m = '/'

theorem toLower_eq_mark_iff (hm : IsPartingMark m) : c.toLower = m ↔ c = m := by
  have hsame : (c.toLower == m) = (c == m) := by
    rcases hm with rfl | rfl
    · exact eq_toLower_of_capitals (· == '.') (by decide) c
    · exact eq_toLower_of_capitals (· == '/') (by decide) c
  rw [← beq_iff_eq, hsame, beq_iff_eq]

theorem IsPartingMark.toNat_lt (hm : IsPartingMark m) : 0 < m.toNat ∧ m.toNat < 48 := by
  rcases hm with rfl | rfl <;> decide

theorem IsPartingMark.ne (hm : IsPartingMark m) (hc : 48 ≤ c.toNat) : m ≠ c := by
  rintro rfl
  have hmark := hm.toNat_lt
  omega

/-- The small letter of a character beyond ASCII may be an ASCII letter, but it is no mark. -/
theorem lowerChar_ne_mark (hm : IsPartingMark m) (hc : 128 ≤ c.toNat) : lowerChar c ≠ m := by
  have htable : ∀ r ∈ lowerTable, 128 ≤ r.last → (48 : Int) ≤ r.first + r.shift := by decide +kernel
  have hmark := hm.toNat_lt
  intro heq
  rw [lowerChar, if_neg (by omega)] at heq
  dsimp only at heq
  split at heq
  · next r hfound =>
    have hrun := List.find?_some hfound
    simp only [Bool.and_eq_true, decide_eq_true_eq] at hrun
    have hshift := htable r (List.mem_of_find?_eq_some hfound) (Nat.le_trans hc hrun.1.2)
    have hcode : (c.toNat + r.shift).toNat = m.toNat ∨ 0 = m.toNat := by
      by_cases hvalid : (c.toNat + r.shift).toNat.isValidChar
      · rw [Char.ofNat, dif_pos hvalid] at heq
        exact Or.inl (congrArg Char.toNat heq)
      · rw [Char.ofNat, dif_neg hvalid] at heq
        exact Or.inr (congrArg Char.toNat heq)
    omega
  · rw [heq] at hc
    omega

theorem lowerChar_eq_mark_iff (hm : IsPartingMark m) : lowerChar c = m ↔ c = m := by
  by_cases hc : c.toNat < 128
  · rw [lowerChar, if_pos hc]
    exact toLower_eq_mark_iff hm
  · refine iff_of_false (lowerChar_ne_mark hm (Nat.le_of_not_lt hc)) ?_
    exact (hm.ne (by omega)).symm

/-- A mark is in the lower-case form of a character only if it is that character. -/
theorem mem_lowerAt_iff (hm : IsPartingMark m) : m ∈ lowerAt before c after ↔ c = m := by
  rw [lowerAt]
  split
  · next hdotted =>
    rw [beq_iff_eq.mp hdotted, List.mem_pair]
    exact iff_of_false (not_or.mpr ⟨hm.ne (by decide), hm.ne (by decide)⟩) (hm.ne (by decide)).symm
  · split
    · next hsigma =>
      rw [beq_iff_eq.mp hsigma, List.mem_singleton]
      refine iff_of_false ?_ (hm.ne (by decide)).symm
      split <;> exact hm.ne (by decide)
    · rw [List.mem_singleton, eq_comm, lowerChar_eq_mark_iff hm]

/-- A mark is its own lower-case form. -/
theorem lowerAt_mark (hm : IsPartingMark m) : lowerAt before m after = [m] := by
  rcases hm with rfl | rfl <;> rfl

theorem lowerAt_ne_nil : lowerAt before c after ≠ [] := by
  rw [lowerAt]
  split
  · exact List.cons_ne_nil _ _
  · split <;> exact List.cons_ne_nil _ _

/-- Only the form of a capital sigma depends on what is around it. -/
theorem lowerAt_eq (hc : c ≠ '\u03A3') (before' after' : List Char) :
    lowerAt before c after = lowerAt before' c after' := by
  have hsigma : (c == '\u03A3') = false := beq_eq_false_iff_ne.mpr hc
  simp only [lowerAt, hsigma, Bool.false_eq_true, if_false]

/-- A capital sigma becomes one of the two small ones. -/
theorem lowerAt_sigma (before after : List Char) :
    lowerAt before '\u03A3' after = ['\u03C2'] ∨ lowerAt before '\u03A3' after = ['\u03C3'] := by
  show [if _ then '\u03C2' else '\u03C3'] = _ ∨ [if _ then '\u03C2' else '\u03C3'] = _
  split
  · exact Or.inl rfl
  · exact Or.inr rfl

end Text

/-- A string that a code point can become in lower case. -/
inductive CodePoint.LowerForm : CodePoint → CodeString → Prop
  | char (before : List Char) (c : Char) (after : List Char) :
      LowerForm (scalar c) (CodeString.ofChars (Text.lowerAt before c after))
  | half (n : Surrogate) : LowerForm (lone n) [lone n]

namespace CodePoint.LowerForm

variable {p : CodePoint} {part part' : CodeString} {m : Char}

theorem ne_nil (h : p.LowerForm part) : part ≠ [] := by
  cases h with
  | char before c after => exact fun hnil => Text.lowerAt_ne_nil (List.map_eq_nil_iff.mp hnil)
  | half n => exact List.cons_ne_nil _ _

theorem mark_mem_iff (h : p.LowerForm part) (hm : Text.IsPartingMark m) :
    scalar m ∈ part ↔ p = scalar m := by
  cases h with
  | char before c after =>
    rw [CodeString.ofChars, List.mem_map_of_injective fun c d => CodePoint.scalar.inj, Text.mem_lowerAt_iff hm,
      CodePoint.scalar.injEq]
  | half n => simp only [List.mem_singleton, reduceCtorEq]

theorem eq_of_mark (h : (scalar m).LowerForm part) (hm : Text.IsPartingMark m) : part = [scalar m] := by
  cases h with
  | char before c after => rw [Text.lowerAt_mark hm, CodeString.ofChars, List.map_singleton]

theorem unique (h : p.LowerForm part) (h' : p.LowerForm part') (hp : p ≠ scalar '\u03A3') : part = part' := by
  cases h with
  | char before c after =>
    cases h' with
    | char before' c after' =>
      rw [Text.lowerAt_eq (fun heq => hp (congrArg scalar heq)) before' after']
  | half n =>
    cases h'
    rfl

theorem of_sigma (h : (scalar '\u03A3').LowerForm part) : part = [scalar '\u03C2'] ∨ part = [scalar '\u03C3'] := by
  cases h with
  | char before c after =>
    exact (Text.lowerAt_sigma before after).imp (congrArg CodeString.ofChars) (congrArg CodeString.ofChars)

end CodePoint.LowerForm

namespace CodeString

/-- The second string is the first with each of its code points in lower case. -/
inductive Lowers : CodeString → CodeString → Prop
  | nil : Lowers [] []
  | cons {p : CodePoint} {part s t : CodeString} (form : p.LowerForm part) (rest : Lowers s t) :
      Lowers (p :: s) (part ++ t)

variable {s s' t t' u : CodeString} {m : Char}

theorem Lowers.append (h : Lowers s t) (h' : Lowers s' t') : Lowers (s ++ s') (t ++ t') := by
  induction h with
  | nil => exact h'
  | cons form _ ih =>
    rw [List.cons_append, List.append_assoc]
    exact .cons form ih

/-! ## The lower-case form of a string -/

/-- The walk over the characters adds to what it has a form of those that are left. -/
theorem exists_lowerGo (before cs done : List Char) :
    ∃ out, Text.lowerGo before cs done = done.reverse ++ out ∧ Lowers (ofChars cs) (ofChars out) := by
  induction cs generalizing before done with
  | nil => exact ⟨[], (List.append_nil _).symm, .nil⟩
  | cons c after ih =>
    obtain ⟨out, hgo, hlowers⟩ := ih (c :: before) ((Text.lowerAt before c after).reverse ++ done)
    refine ⟨Text.lowerAt before c after ++ out, ?_, ?_⟩
    · rw [Text.lowerGo, hgo, List.reverse_append, List.reverse_reverse, List.append_assoc]
    · rw [show ofChars (Text.lowerAt before c after ++ out) = ofChars _ ++ ofChars out from List.map_append]
      exact .cons (.char before c after) hlowers

theorem lowers_lowerChars (cs : List Char) : Lowers (ofChars cs) (ofChars (Text.lowerChars cs)) := by
  obtain ⟨out, hgo, hlowers⟩ := exists_lowerGo [] cs []
  rw [Text.lowerChars, hgo]
  exact hlowers

/-- One step of the way through a string from its end: the characters before the first lone half so far, and what
follows them in lower case. -/
def lowerStep (p : CodePoint) (sofar : List Char × CodeString) : List Char × CodeString :=
  match p with
  | .scalar c => (c :: sofar.1, sofar.2)
  | .lone _ => ([], p :: (ofChars (Text.lowerChars sofar.1) ++ sofar.2))

theorem lower_eq (s : CodeString) :
    s.lower = ofChars (Text.lowerChars (s.foldr lowerStep ([], [])).1) ++ (s.foldr lowerStep ([], [])).2 := rfl

theorem exists_foldr_lowerStep (s : CodeString) :
    ∃ rest, s = ofChars (s.foldr lowerStep ([], [])).1 ++ rest ∧ Lowers rest (s.foldr lowerStep ([], [])).2 := by
  induction s with
  | nil => exact ⟨[], rfl, .nil⟩
  | cons p s ih =>
    obtain ⟨rest, hs, hlowers⟩ := ih
    cases p with
    | scalar c => exact ⟨rest, congrArg (.scalar c :: ·) hs, hlowers⟩
    | lone n =>
      refine ⟨.lone n :: s, rfl, .cons (.half n) ?_⟩
      have hall := (lowers_lowerChars (s.foldr lowerStep ([], [])).1).append hlowers
      rwa [← hs] at hall

/-- A string in lower case is the string with each of its code points in lower case. -/
theorem lowers_lower (s : CodeString) : Lowers s s.lower := by
  obtain ⟨rest, hs, hlowers⟩ := exists_foldr_lowerStep s
  have hall := (lowers_lowerChars (s.foldr lowerStep ([], [])).1).append hlowers
  rwa [← hs, ← lower_eq] at hall

/-! ## Parts and marks -/

namespace Lowers

/-- A string put together in lower case is put together from its parts in lower case. -/
theorem of_append (h : Lowers (s ++ s') u) : ∃ t t', u = t ++ t' ∧ Lowers s t ∧ Lowers s' t' := by
  induction s generalizing u with
  | nil => exact ⟨[], u, rfl, .nil, h⟩
  | cons p s ih =>
    cases h with
    | cons form rest =>
      obtain ⟨t, t', rfl, hs, hs'⟩ := ih rest
      exact ⟨_ ++ t, t', (List.append_assoc _ _ _).symm, .cons form hs, hs'⟩

/-- A mark stands in lower case where it stood. -/
theorem of_mark_cons (h : Lowers (.scalar m :: s) u) (hm : Text.IsPartingMark m) :
    ∃ t, u = .scalar m :: t ∧ Lowers s t := by
  cases h with
  | cons form rest =>
    rw [form.eq_of_mark hm]
    exact ⟨_, rfl, rest⟩

theorem mark_mem_iff (h : Lowers s t) (hm : Text.IsPartingMark m) :
    CodePoint.scalar m ∈ t ↔ CodePoint.scalar m ∈ s := by
  induction h with
  | nil => exact Iff.rfl
  | cons form _ ih => rw [List.mem_append, List.mem_cons, form.mark_mem_iff hm, ih, eq_comm]

/-- Nothing but marks is what is in lower case nothing but marks. -/
theorem forall_eq_mark_iff (h : Lowers s t) (hm : Text.IsPartingMark m) :
    (∀ q ∈ t, q = .scalar m) ↔ ∀ p ∈ s, p = .scalar m := by
  induction h with
  | nil => exact Iff.rfl
  | @cons p part s t form _ ih =>
    rw [List.forall_mem_append, List.forall_mem_cons, ih]
    refine and_congr_left fun _ => ?_
    constructor
    · intro hall
      obtain ⟨q, hq⟩ := List.exists_mem_of_ne_nil part form.ne_nil
      rw [hall q hq] at hq
      exact (form.mark_mem_iff hm).mp hq
    · rintro rfl
      rw [form.eq_of_mark hm]
      exact fun q hq => List.mem_singleton.mp hq

theorem eq_nil_iff (h : Lowers s t) : t = [] ↔ s = [] := by
  cases h with
  | nil => exact Iff.rfl
  | cons form _ =>
    exact iff_of_false (fun hnil => form.ne_nil (List.append_eq_nil_iff.mp hnil).1) (List.cons_ne_nil _ _)

/-! ## How far the relation is a function -/

/-- A string without a capital sigma has one lower-case form. -/
theorem unique (h : Lowers s t) (h' : Lowers s t') (hs : CodePoint.scalar '\u03A3' ∉ s) : t = t' := by
  induction h generalizing t' with
  | nil =>
    cases h'
    rfl
  | cons form _ ih =>
    obtain ⟨hp, hs⟩ := List.ne_and_not_mem_of_not_mem_cons hs
    cases h' with
    | cons form' rest' => rw [form.unique form' (Ne.symm hp), ih rest' hs]

/-- Where there is a capital sigma there is a small one in lower case. -/
theorem sigma_mem (h : Lowers s t) (hs : CodePoint.scalar '\u03A3' ∈ s) :
    CodePoint.scalar '\u03C2' ∈ t ∨ CodePoint.scalar '\u03C3' ∈ t := by
  obtain ⟨before, after, rfl⟩ := List.append_of_mem hs
  obtain ⟨t₁, t₂, rfl, _, hrest⟩ := h.of_append
  cases hrest with
  | cons form _ =>
    rcases form.of_sigma with rfl | rfl
    · exact Or.inl (by simp)
    · exact Or.inr (by simp)

end Lowers

end CodeString

end SourceScan
