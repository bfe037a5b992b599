import SourceScan.Proofs.Pattern.Pieces
import SourceScan.Proofs.Text.Places

/-!
# The largest number of pieces

`Most t p i n` says that `n` is the largest number of pieces of `p` that lie one after the other in `t` from
place `i` on. It is found from the end of the text: place by place (`Most.of_later`), and piece by piece where it is
known which piece ends first (`Most.of_first`). If no piece ends before one that begins earlier, it is what is
counted (`Most.count_eq`).

Pieces of some patterns cannot overlap at all (`Apart`), and then every place where one begins counts
(`most_places`). Two forms of a pattern are enough for that: its first character does not come again in a piece
(`openedBy`), or it begins with a word and has no character after that word that can begin it (`opensWord`).
-/

namespace SourceScan.Pattern

variable {t : Array Char} {p q : Pattern} {s : CharSet} {text : List Char} {i j k m n : Nat}

/-! ## Pieces from a place on -/

/-- Fewer pieces can be had as well. -/
theorem Pieces.of_fewer (h : Pieces t p i n) (hle : m ≤ n) : Pieces t p i m := by
  induction h generalizing m with
  | nil i =>
    obtain rfl := Nat.le_zero.mp hle
    exact .nil i
  | cons hstart hspans _ ih =>
    cases m with
    | zero => exact .nil _
    | succ m => exact .cons hstart hspans (ih (Nat.le_of_succ_le_succ hle))

/-- Where no piece begins, the pieces are those from a later place on. -/
theorem Pieces.of_later (h : Pieces t p i n) (hnone : ∀ x y, i ≤ x → x < k → ¬Spans t p x y) : Pieces t p k n := by
  cases h with
  | nil => exact .nil k
  | @cons _ x y _ hstart hspans hrest =>
    have hlater : k ≤ x := Nat.le_of_not_lt fun hlt => hnone x y hstart hlt hspans
    exact .cons hlater hspans hrest

/-- `n` is the largest number of pieces of the pattern one after the other, the first of them at place `i` or
later. -/
structure Most (t : Array Char) (p : Pattern) (i n : Nat) : Prop where
  pieces : Pieces t p i n
  le : ∀ m, Pieces t p i m → m ≤ n

namespace Most

/-- There are `m` pieces exactly if `m` is no more than the largest number. -/
theorem pieces_iff (h : Most t p i n) : Pieces t p i m ↔ m ≤ n := ⟨h.le m, h.pieces.of_fewer⟩

theorem of_later (h : Most t p k n) (hle : i ≤ k) (hnone : ∀ x y, i ≤ x → x < k → ¬Spans t p x y) :
    Most t p i n where
  pieces := h.pieces.of_le hle
  le m hm := h.le m (hm.of_later hnone)

/-- A piece that ends first is the first of the largest number of pieces. -/
theorem of_first (h : Most t p k n) (hle : i ≤ j) (hspans : Spans t p j k)
    (hfirst : ∀ x y, i ≤ x → Spans t p x y → k ≤ y) : Most t p i (n + 1) where
  pieces := .cons hle hspans h.pieces
  le m hm := by
    cases hm with
    | nil => exact Nat.zero_le _
    | cons hstart hpiece hrest =>
      exact Nat.succ_le_succ (h.le _ (hrest.of_le (hfirst _ _ hstart hpiece)))

/-- No piece begins at the end of the text. -/
theorem of_size_le (hp : p.nullable = false) (hi : t.size ≤ i) : Most t p i 0 where
  pieces := .nil i
  le m hm := by
    cases hm with
    | nil => exact Nat.le_refl 0
    | cons hstart hpiece _ => exact absurd (hpiece.start_lt hp) (by omega)

/-- The pieces counted from the left are the largest number, if no piece ends before one that begins earlier. -/
theorem count_eq (h : Most t p 0 n) (hp : p.nullable = false) (horderly : Orderly t p) : p.count t = n :=
  Nat.le_antisymm (h.le _ (pieces_count hp t)) (le_count_of_pieces hp horderly h.pieces)

end Most

/-! ## Pieces that cannot overlap -/

/-- Of two pieces the one that begins first ends before the other begins. -/
def Apart (t : Array Char) (p : Pattern) : Prop :=
  ∀ i j i' j', Spans t p i j → Spans t p i' j' → i < i' → j ≤ i'

/-- A piece takes no place from those that begin later. -/
theorem Most.of_apart (h : Most t p (i + 1) n) (hp : p.nullable = false) (happart : Apart t p)
    (hspans : Spans t p i j) : Most t p i (n + 1) where
  pieces := by
    have hnone : ∀ x y, i + 1 ≤ x → x < j → ¬Spans t p x y := fun x y hle hlt hpiece =>
      absurd (happart i j x y hspans hpiece hle) (Nat.not_le_of_lt hlt)
    exact .cons (Nat.le_refl i) hspans (h.pieces.of_later hnone)
  le m hm := by
    cases hm with
    | nil => exact Nat.zero_le _
    | cons hstart hpiece hrest =>
      have hlt := Spans.lt_of_not_nullable p hpiece hp
      exact Nat.succ_le_succ (h.le _ (hrest.of_le (Nat.lt_of_le_of_lt hstart hlt)))

/-- If no pieces overlap, every place where a piece begins counts. -/
theorem most_places {P : List Char → List Char → Prop} [DecidableRel P] (hp : p.nullable = false)
    (happart : Apart text.toArray p)
    (hbegins : ∀ before rest, (∃ k, Spans (before ++ rest).toArray p before.length k) ↔ P before rest) :
    Most text.toArray p 0 (Text.places P text) := by
  have hfrom : ∀ n i, i + n = text.length → Most text.toArray p i
      ((List.range' i n).countP fun i => decide (P (text.take i) (text.drop i))) := by
    intro n
    induction n with
    | zero =>
      intro i hi
      exact .of_size_le hp (by rw [List.size_toArray]; omega)
    | succ n ih =>
      intro i hi
      have hlater := ih (i + 1) (by omega)
      have hplace := hbegins (text.take i) (text.drop i)
      rw [List.take_append_drop, List.length_take, Nat.min_eq_left (by omega)] at hplace
      rw [List.range'_succ, List.countP_cons]
      split
      · next hP =>
        obtain ⟨j, hspans⟩ := hplace.mpr (of_decide_eq_true hP)
        exact hlater.of_apart hp happart hspans
      · next hP =>
        refine hlater.of_later (Nat.le_succ i) fun x y hle hlt hspans => ?_
        obtain rfl : x = i := by omega
        exact hP (decide_eq_true (hplace.mp ⟨y, hspans⟩))
  unfold Text.places
  rw [List.range_eq_range']
  exact hfrom text.length 0 (Nat.zero_add _)

/-! ## Forms of patterns whose pieces are apart -/

/-- The pattern begins with a character of the set and has none after it. -/
def openedBy (s : CharSet) : Pattern → Bool
  | char r => decide (r = s)
  | seq p q => p.openedBy s && q.avoids s
  | _ => false

/-- A piece begins with a character of the set and has no other. -/
theorem Spans.opened (hp : p.openedBy s = true) (h : Spans t p i j) :
    charAt t s i = true ∧ ∀ m, i < m → m < j → charAt t s m = false := by
  induction p generalizing j with
  | char r =>
    obtain rfl := of_decide_eq_true hp
    obtain ⟨hchar, rfl⟩ := h
    exact ⟨hchar, fun m hle hlt => by omega⟩
  | seq p q ihp _ =>
    obtain ⟨hp, hq⟩ := Bool.and_eq_true_iff.mp hp
    obtain ⟨n, hfirst, hsecond⟩ := h
    obtain ⟨hchar, hnone⟩ := ihp hp hfirst
    refine ⟨hchar, fun m hle hlt => ?_⟩
    rcases Nat.lt_or_ge m n with hin | hout
    · exact hnone m hle hin
    · exact hsecond.not_charAt_of_avoids hq m hout hlt
  | _ => cases hp

/-- If the first character of a piece does not come again in it, pieces are apart. -/
theorem apart_of_openedBy (hp : p.openedBy s = true) : Apart t p := by
  intro i j i' j' h h' hlt
  apply Nat.le_of_not_lt
  intro hin
  have hnone := (h.opened hp).2 i' hlt hin
  rw [(h'.opened hp).1] at hnone
  cases hnone

/-- A pattern that has word characters only spans a part of a word. -/
theorem Spans.wordAfter_of_avoids (hp : p.avoids (.compl .word) = true) (h : Spans t p i j) (hle : i ≤ k)
    (hlt : k < j) : wordAfter t k = true := by
  have hsize : k < t.size := by
    have hend := (Spans.bounds p h).2
    omega
  have hnot := h.not_charAt_of_avoids hp k hle hlt
  rw [charAt_eq_any, Array.getElem?_eq_getElem hsize] at hnot
  rw [wordAfter_eq_any, Array.getElem?_eq_getElem hsize]
  exact Bool.not_eq_false' _ ▸ hnot

/-- The pattern begins a word with a part that has word characters only, and has no character after that part that
can begin it. -/
def opensWord : Pattern → Bool
  | seq boundary (seq p q) => !p.nullable && p.avoids (.compl .word) && p.first.any q.avoids
  | _ => false

/-- If pieces begin with a word that does not begin again in them, they are apart. -/
theorem apart_of_opensWord (hp : p.opensWord = true) : Apart t p := by
  unfold opensWord at hp
  split at hp
  · next p q =>
    obtain ⟨hp, hfirst⟩ := Bool.and_eq_true_iff.mp hp
    obtain ⟨hsome, hletters⟩ := Bool.and_eq_true_iff.mp hp
    rintro i j i' j' ⟨_, ⟨_, rfl⟩, m, hword, hrest⟩ ⟨_, ⟨hboundary, rfl⟩, m', hword', _⟩ hlt
    have hsome' := Spans.lt_of_not_nullable p hword' (Bool.not_eq_true' _ ▸ hsome)
    obtain ⟨s, hs, hbegins⟩ := Spans.charAt_first p hword' hsome'
    have havoids : q.avoids s = true := by
      rw [hs] at hfirst
      exact hfirst
    apply Nat.le_of_not_lt
    intro hin
    rcases Nat.lt_or_ge i' m with hearly | hlate
    · -- Within the word of the first piece no other word begins.
      have hbefore : wordBefore t i' = true := by
        obtain ⟨i', rfl⟩ := Nat.exists_eq_succ_of_ne_zero (Nat.ne_zero_of_lt hlt)
        exact hword.wordAfter_of_avoids hletters (Nat.le_of_lt_succ hlt) (Nat.lt_of_succ_lt hearly)
      rw [isBoundary, hbefore, hword'.wordAfter_of_avoids hletters (Nat.le_refl i') hsome'] at hboundary
      cases hboundary
    · rw [hrest.not_charAt_of_avoids havoids i' hlate hin] at hbegins
      cases hbegins
  · cases hp

end SourceScan.Pattern
