import SourceScan.Pattern.Lemmas

/-!
# Patterns in a longer text

A text stands in a longer one, and no word goes over either of its ends (`Inside`). What a pattern spans in
the text it spans in the longer one as well, further on, if it asks for no end of the text and what it must
not be followed by does not take up the character that comes next (`Spans.inside`). If nothing in the
pattern takes up that character, it spans nothing more from the places of the text (`spans_inside_iff`).

So what occurs in a text occurs in the longer one (`OccursIn.insideAfter`), and nothing more does if the text
ends the longer one and no piece begins before it (`occursIn_inside_iff`). The conditions are about the form
of a pattern and a few characters, and are computed.
-/

namespace SourceScan.Pattern

variable {t u : Array Char} {off i j k : Nat} {next : Option Char} {p q : Pattern} {s : CharSet}

theorem charAt_eq_any (t : Array Char) (s : CharSet) (i : Nat) : charAt t s i = t[i]?.any s.contains := by
  unfold charAt
  split
  · next h => rw [Array.getElem?_eq_getElem h, Option.any_some]
  · next h => rw [Array.getElem?_eq_none (Nat.le_of_not_lt h), Option.any_none]

theorem wordAfter_eq_any (t : Array Char) (i : Nat) : wordAfter t i = t[i]?.any Text.isWord := by
  unfold wordAfter
  split
  · next h => rw [Array.getElem?_eq_getElem h, Option.any_some]
  · next h => rw [Array.getElem?_eq_none (Nat.le_of_not_lt h), Option.any_none]

/-- The text `u` stands in `t` from place `off` on, with `next` after it, if anything, and no word character
at either side. -/
structure Inside (t u : Array Char) (off : Nat) (next : Option Char) : Prop where
  fits : off + u.size ≤ t.size
  same : ∀ i, i < u.size → t[off + i]? = u[i]?
  after : t[off + u.size]? = next
  wordBefore : wordBefore t off = false
  wordAfter : next.any Text.isWord = false

namespace Inside

/-- A text between two others, whose characters next to it belong to no word. -/
theorem of_append (before s after : List Char) (hbefore : before.getLast?.any Text.isWord = false)
    (hafter : after.head?.any Text.isWord = false) :
    Inside (before ++ s ++ after).toArray s.toArray before.length after.head? where
  fits := by
    rw [List.size_toArray, List.size_toArray, List.length_append, List.length_append]
    exact Nat.le_add_right _ _
  same i hi := by
    rw [List.size_toArray] at hi
    rw [List.getElem?_toArray, List.getElem?_toArray, List.append_assoc,
      List.getElem?_append_right (Nat.le_add_right _ _), Nat.add_sub_cancel_left,
      List.getElem?_append_left hi]
  after := by
    rw [List.size_toArray, List.getElem?_toArray, ← List.length_append,
      List.getElem?_append_right (Nat.le_refl _), Nat.sub_self, List.head?_eq_getElem?]
  wordBefore := by
    rw [Pattern.wordBefore]
    split
    · rfl
    · next hne =>
      have hlt : before.length - 1 < before.length := by
        have hne : before.length ≠ 0 := by simpa using hne
        omega
      rw [wordAfter_eq_any, List.getElem?_toArray, List.append_assoc, List.getElem?_append_left hlt,
        ← List.getLast?_eq_getElem?]
      exact hbefore
  wordAfter := hafter

variable (h : Inside t u off next)

include h

theorem charAt (hi : i < u.size) : charAt t s (off + i) = charAt u s i := by
  rw [charAt_eq_any, charAt_eq_any, h.same i hi]

/-- The character after the text is in a set only if `next` is. -/
theorem charAt_size : Pattern.charAt t s (off + u.size) = next.any s.contains := by
  rw [charAt_eq_any, h.after]

theorem wordAfter_eq (hi : i ≤ u.size) : Pattern.wordAfter t (off + i) = Pattern.wordAfter u i := by
  rw [wordAfter_eq_any, wordAfter_eq_any]
  rcases Nat.lt_or_eq_of_le hi with hlt | rfl
  · rw [h.same i hlt]
  · rw [h.after, h.wordAfter, Array.getElem?_eq_none (Nat.le_refl _), Option.any_none]

theorem wordBefore_eq (hi : i ≤ u.size) : Pattern.wordBefore t (off + i) = Pattern.wordBefore u i := by
  cases i with
  | zero => exact h.wordBefore
  | succ i => exact h.wordAfter_eq (Nat.le_of_succ_le hi)

theorem isBoundary (hi : i ≤ u.size) : isBoundary t (off + i) = isBoundary u i := by
  rw [Pattern.isBoundary, Pattern.isBoundary, h.wordBefore_eq hi, h.wordAfter_eq hi]

end Inside

/-! ## Patterns that stay in a text -/

/-- No character set of the pattern has the next character, and the pattern asks for no end of the text. -/
def confined (next : Option Char) : Pattern → Bool
  | empty | boundary => true
  | char s | run s => !next.any s.contains
  | seq p q | alt p q => p.confined next && q.confined next
  | many p | notAhead p => p.confined next
  | atStart | atEnd => false

/-- What must not follow is confined by the next character, and the pattern asks for no end of the text. -/
def lasting (next : Option Char) : Pattern → Bool
  | empty | boundary | char _ | run _ => true
  | seq p q | alt p q => p.lasting next && q.lasting next
  | many p => p.lasting next
  | notAhead p => p.confined next
  | atStart | atEnd => false

theorem Spans.le_size (h : Spans u p i j) (hi : i ≤ u.size) : j ≤ u.size := by
  have := (Spans.bounds p h).2
  omega

theorem spans_char_inside_iff (h : Inside t u off next) (hs : next.any s.contains = false) (hi : i ≤ u.size) :
    Spans t (char s) (off + i) k ↔ ∃ j, k = off + j ∧ Spans u (char s) i j := by
  have hchar : charAt t s (off + i) = charAt u s i := by
    rcases Nat.lt_or_eq_of_le hi with hlt | rfl
    · exact h.charAt hlt
    · rw [h.charAt_size, hs, charAt_eq_any, Array.getElem?_eq_none (Nat.le_refl _), Option.any_none]
  simp only [Spans, hchar]
  constructor
  · rintro ⟨hc, rfl⟩
    exact ⟨i + 1, Nat.add_assoc off i 1, hc, rfl⟩
  · rintro ⟨j, rfl, hc, rfl⟩
    exact ⟨hc, (Nat.add_assoc off i 1).symm⟩

theorem spans_run_inside_iff (h : Inside t u off next) (hs : next.any s.contains = false) (hi : i ≤ u.size) :
    Spans t (run s) (off + i) k ↔ ∃ j, k = off + j ∧ Spans u (run s) i j := by
  constructor
  · intro ⟨hle, hall⟩
    have hend : k ≤ off + u.size := by
      refine le_of_run hall (Nat.add_le_add_left hi off) ?_
      rw [h.charAt_size, hs]
    obtain ⟨j, rfl⟩ := Nat.exists_eq_add_of_le (Nat.le_trans (Nat.le_add_right off i) hle)
    refine ⟨j, rfl, by omega, fun m hm hlt => ?_⟩
    rw [← h.charAt (by omega)]
    exact hall (off + m) (by omega) (by omega)
  · intro ⟨j, hk, hspans⟩
    have hj := Spans.le_size hspans hi
    subst hk
    refine ⟨by have := hspans.1; omega, fun m hm hlt => ?_⟩
    obtain ⟨m, rfl⟩ := Nat.exists_eq_add_of_le (Nat.le_trans (Nat.le_add_right off i) hm)
    rw [h.charAt (by omega)]
    exact hspans.2 m (by omega) (by omega)

/-- A repetition spans the same from the places of a text, wherever the text stands, if what is repeated does. -/
theorem spans_many_inside_iff
    (hp : ∀ {i k}, i ≤ u.size → (Spans t p (off + i) k ↔ ∃ j, k = off + j ∧ Spans u p i j)) (hi : i ≤ u.size) :
    Spans t (many p) (off + i) k ↔ ∃ j, k = off + j ∧ Spans u (many p) i j := by
  constructor
  · intro hchain
    simp only [Spans] at hchain
    generalize hfrom : off + i = a at hchain
    induction hchain generalizing i with
    | nil => exact ⟨i, hfrom.symm, .nil i⟩
    | cons hstep _ ihrest =>
      subst hfrom
      obtain ⟨m, rfl, hm⟩ := (hp hi).mp hstep
      obtain ⟨j, hk, hrest⟩ := ihrest (Spans.le_size hm hi) rfl
      exact ⟨j, hk, .cons hm hrest⟩
  · rintro ⟨j, hk, hchain⟩
    subst hk
    induction hchain with
    | nil i => exact .nil (off + i)
    | cons hstep _ ihrest =>
      exact .cons ((hp hi).mpr ⟨_, rfl, hstep⟩) (ihrest (Spans.le_size hstep hi))

/-- A confined pattern spans the same from the places of a text, wherever the text stands. -/
theorem spans_inside_iff (h : Inside t u off next) (p : Pattern) (hp : p.confined next = true)
    {i k : Nat} (hi : i ≤ u.size) :
    Spans t p (off + i) k ↔ ∃ j, k = off + j ∧ Spans u p i j := by
  induction p generalizing i k with
  | empty =>
    simp only [Spans, exists_eq_right', eq_comm]
  | char s => exact spans_char_inside_iff h (by simpa [confined] using hp) hi
  | seq p q ihp ihq =>
    simp only [confined, Bool.and_eq_true] at hp
    constructor
    · rintro ⟨m', hm', hk⟩
      obtain ⟨m, rfl, hm⟩ := (ihp hp.1 hi).mp hm'
      obtain ⟨j, rfl, hj⟩ := (ihq hp.2 (Spans.le_size hm hi)).mp hk
      exact ⟨j, rfl, m, hm, hj⟩
    · rintro ⟨j, hk, m, hm, hj⟩
      exact ⟨off + m, (ihp hp.1 hi).mpr ⟨m, rfl, hm⟩, (ihq hp.2 (Spans.le_size hm hi)).mpr ⟨j, hk, hj⟩⟩
  | alt p q ihp ihq =>
    simp only [confined, Bool.and_eq_true] at hp
    simp only [Spans, ihp hp.1 hi, ihq hp.2 hi, and_or_left, exists_or]
  | run s => exact spans_run_inside_iff h (by simpa [confined] using hp) hi
  | many p ih => exact spans_many_inside_iff (ih hp) hi
  | boundary =>
    simp only [Spans, h.isBoundary hi]
    constructor
    · rintro ⟨hb, rfl⟩
      exact ⟨i, rfl, hb, rfl⟩
    · rintro ⟨j, rfl, hb, rfl⟩
      exact ⟨hb, rfl⟩
  | atStart => cases hp
  | atEnd => cases hp
  | notAhead p ih =>
    rw [confined] at hp
    simp only [Spans, ih hp hi]
    constructor
    · rintro ⟨hnone, rfl⟩
      exact ⟨i, rfl, fun j hj => hnone (off + j) ⟨j, rfl, hj⟩, rfl⟩
    · rintro ⟨j, rfl, hnone, rfl⟩
      exact ⟨fun k hk => hk.elim fun j hj => hnone j hj.2, rfl⟩

/-- A piece of a text is a piece where the text stands in a longer one. -/
theorem Spans.inside (h : Inside t u off next) (p : Pattern) (hp : p.lasting next = true) {i j : Nat}
    (hi : i ≤ u.size) (hspans : Spans u p i j) : Spans t p (off + i) (off + j) := by
  induction p generalizing i j with
  | empty => exact congrArg (off + ·) hspans
  | char s =>
    obtain ⟨hchar, rfl⟩ := hspans
    exact ⟨by rw [h.charAt (charAt_lt hchar)]; exact hchar, rfl⟩
  | seq p q ihp ihq =>
    simp only [lasting, Bool.and_eq_true] at hp
    obtain ⟨m, hm, hj⟩ := hspans
    exact ⟨off + m, ihp hp.1 hi hm, ihq hp.2 (Spans.le_size hm hi) hj⟩
  | alt p q ihp ihq =>
    simp only [lasting, Bool.and_eq_true] at hp
    exact hspans.imp (ihp hp.1 hi) (ihq hp.2 hi)
  | run s =>
    have hj := Spans.le_size hspans hi
    refine ⟨Nat.add_le_add_left hspans.1 off, fun m hm hlt => ?_⟩
    obtain ⟨m, rfl⟩ := Nat.exists_eq_add_of_le (Nat.le_trans (Nat.le_add_right off i) hm)
    rw [h.charAt (by omega)]
    exact hspans.2 m (by omega) (by omega)
  | many p ih =>
    rw [lasting] at hp
    induction hspans with
    | nil i => exact .nil (off + i)
    | cons hstep _ ihrest => exact .cons (ih hp hi hstep) (ihrest (Spans.le_size hstep hi))
  | boundary => exact ⟨by rw [h.isBoundary hi]; exact hspans.1, congrArg (off + ·) hspans.2⟩
  | atStart => cases hp
  | atEnd => cases hp
  | notAhead p =>
    refine ⟨fun k hk => ?_, congrArg (off + ·) hspans.2⟩
    obtain ⟨j, _, hj⟩ := (spans_inside_iff h p hp hi).mp hk
    exact hspans.1 j hj

/-! ## Whether a pattern occurs -/

theorem occursIn_alt : OccursIn t (alt p q) ↔ OccursIn t p ∨ OccursIn t q := by
  simp only [OccursIn, Spans, and_or_left, exists_or]

theorem OccursIn.inside (h : Inside t u off next) (hp : p.lasting next = true) (ho : OccursIn u p) :
    OccursIn t p := by
  obtain ⟨i, j, hi, hspans⟩ := ho
  have hfits := h.fits
  exact ⟨off + i, off + j, by omega, Spans.inside h p hp hi hspans⟩

/-- As for `lasting`, but a piece may begin at the start of the text if `before` can begin it as well. -/
def lastingAfter (before : Char) (next : Option Char) : Pattern → Bool
  | alt p q => p.lastingAfter before next && q.lastingAfter before next
  | seq (alt atStart (char s)) q => s.contains before && q.lasting next
  | p => p.lasting next

/-- What occurs in a text occurs where the text stands in a longer one, also if it begins with the text: the
character before the text is taken up then. -/
theorem OccursIn.insideAfter {before : Char} (h : Inside t u (off + 1) next)
    (hbefore : t[off]? = some before) (p : Pattern) (hp : p.lastingAfter before next = true)
    (ho : OccursIn u p) : OccursIn t p := by
  fun_induction lastingAfter before next p with
  | case1 p q ihp ihq =>
    rw [Bool.and_eq_true] at hp
    exact occursIn_alt.mpr ((occursIn_alt.mp ho).imp (ihp hp.1) (ihq hp.2))
  | case2 s q =>
    rw [Bool.and_eq_true] at hp
    obtain ⟨i, j, hi, m, hm, hj⟩ := ho
    have hfits := h.fits
    rcases hm with ⟨rfl, rfl⟩ | ⟨hchar, rfl⟩
    · have hspace : charAt t s off = true := by
        rw [charAt_eq_any, hbefore]
        exact hp.1
      exact ⟨off, _, by omega, off + 1, Or.inr ⟨hspace, rfl⟩, Spans.inside h q hp.2 hi hj⟩
    · have hlt := charAt_lt hchar
      refine ⟨off + 1 + i, _, by omega, off + 1 + (i + 1), Or.inr ⟨?_, rfl⟩, Spans.inside h q hp.2 hlt hj⟩
      rw [h.charAt hlt]
      exact hchar
  | case3 p => exact OccursIn.inside h hp ho

/-- No piece of the pattern is empty or begins with the character. -/
def neverBegins (c : Char) (p : Pattern) : Bool := !p.nullable && !p.first.any (·.contains c)

theorem not_spans_of_neverBegins {c : Char} (hp : p.neverBegins c = true) (hc : t[i]? = some c) :
    ¬Spans t p i j := by
  intro hspans
  rw [neverBegins, Bool.and_eq_true, Bool.not_eq_true', Bool.not_eq_true'] at hp
  obtain ⟨s, hs, hchar⟩ := Spans.charAt_first p hspans (Spans.lt_of_not_nullable p hspans hp.1)
  rw [charAt_eq_any, hc] at hchar
  rw [hs] at hp
  exact Bool.false_ne_true (hp.2.symm.trans hchar)

/-- A pattern occurs in a text that ends with another one if and only if it occurs there, if no piece of it
begins with a character before that. -/
theorem occursIn_inside_iff (h : Inside t u off none) (hp : p.confined none = true)
    (hbefore : ∀ i c, i < off → t[i]? = some c → p.neverBegins c = true) :
    OccursIn t p ↔ OccursIn u p := by
  have hfits := h.fits
  have hsize : t.size ≤ off + u.size := Array.getElem?_eq_none_iff.mp h.after
  constructor
  · intro ⟨i, j, hi, hspans⟩
    have hle : off ≤ i := by
      apply Nat.le_of_not_lt
      intro hlt
      have hit : i < t.size := by omega
      have hc := Array.getElem?_eq_getElem hit
      exact not_spans_of_neverBegins (hbefore i _ hlt hc) hc hspans
    obtain ⟨i, rfl⟩ := Nat.exists_eq_add_of_le hle
    have hi : i ≤ u.size := by omega
    obtain ⟨j, _, hj⟩ := (spans_inside_iff h p hp hi).mp hspans
    exact ⟨i, j, hi, hj⟩
  · intro ⟨i, j, hi, hspans⟩
    exact ⟨off + i, off + j, by omega, (spans_inside_iff h p hp hi).mpr ⟨j, rfl, hspans⟩⟩

end SourceScan.Pattern
