import SourceScan.Proofs.Pattern.Pieces

/-!
# Carriage returns at the ends of lines

What a pattern spans in a text with one carriage return more.

At the end of a line the return is the last character. Pieces that end before it are the same with it
(`spans_append_iff`), and there is a piece from a place with it if and only if there is one without
(`begins_return_iff`), if what may take up the return is followed by something that does not.

Within a text, before a line feed, the return moves all places after it. The pieces are the same but for their
places (`ReturnAt.spans_moved_iff`), and as many are counted (`ReturnAt.count_eq`), if whatever takes up the line
feed takes up the return as well and no two parts of the pattern meet between them.

The conditions are computed from the form of the pattern. Nothing is said of patterns that exclude what follows.
-/

namespace SourceScan

theorem Chain.of_le {step step' : Nat → Nat → Prop} {n i k : Nat} (up : ∀ i j, step i j → i ≤ j)
    (himp : ∀ i j, j ≤ n → step i j → step' i j) (h : Chain step i k) (hk : k ≤ n) : Chain step' i k := by
  induction h with
  | nil i => exact .nil i
  | cons hstep hrest ih => exact .cons (himp _ _ (Nat.le_trans (hrest.le up) hk) hstep) (ih hk)

namespace Pattern

variable {t t' : Array Char} {p q : Pattern} {s : CharSet} {line rest : List Char} {i j k m n : Nat}

/-! ## At the end of a line -/

theorem charAt_append_left (rest : List Char) (hi : i < line.length) :
    charAt (line ++ rest).toArray s i = charAt line.toArray s i := by
  rw [charAt_eq_any, charAt_eq_any, List.getElem?_toArray, List.getElem?_toArray, List.getElem?_append_left hi]

/-- What the pattern asks for is in the piece itself or before it. -/
def looksBack : Pattern → Bool
  | empty | char _ | run _ | atStart => true
  | seq p q | alt p q => p.looksBack && q.looksBack
  | many p => p.looksBack
  | boundary | atEnd | notAhead _ => false

/-- The pieces of a text are those of a longer one that end in it. -/
theorem spans_append_iff (rest : List Char) (hp : p.looksBack = true) (hj : j ≤ line.length) :
    Spans (line ++ rest).toArray p i j ↔ Spans line.toArray p i j := by
  induction p generalizing i j with
  | empty => exact Iff.rfl
  | atStart => exact Iff.rfl
  | char s =>
    apply and_congr_left
    intro hij
    rw [charAt_append_left rest (by omega)]
  | run s =>
    apply and_congr_right
    intro _
    apply forall_congr'
    intro k
    apply forall_congr'
    intro _
    apply forall_congr'
    intro hlt
    rw [charAt_append_left rest (Nat.lt_of_lt_of_le hlt hj)]
  | seq p q ihp ihq =>
    obtain ⟨hp, hq⟩ := Bool.and_eq_true_iff.mp hp
    apply exists_congr
    intro m
    constructor
    · intro ⟨hfirst, hsecond⟩
      exact ⟨(ihp hp (Nat.le_trans hsecond.le hj)).mp hfirst, (ihq hq hj).mp hsecond⟩
    · intro ⟨hfirst, hsecond⟩
      exact ⟨(ihp hp (Nat.le_trans hsecond.le hj)).mpr hfirst, (ihq hq hj).mpr hsecond⟩
  | alt p q ihp ihq =>
    obtain ⟨hp, hq⟩ := Bool.and_eq_true_iff.mp hp
    exact or_congr (ihp hp hj) (ihq hq hj)
  | many p ih =>
    constructor
    · exact fun h => Chain.of_le (fun _ _ h => h.le) (fun _ _ hle => (ih hp hle).mp) h hj
    · exact fun h => Chain.of_le (fun _ _ h => h.le) (fun _ _ hle => (ih hp hle).mpr) h hj
  | boundary | atEnd | notAhead p => cases hp

/-- A carriage return at the end of the line neither brings a piece to a place nor takes one away, as far as the
form of the pattern tells. -/
def passesReturn : Pattern → Bool
  | char s => !s.contains '\r'
  | seq (run s) atEnd => s.contains '\n' && s.contains '\r'
  | seq p q => p.looksBack && (!q.nullable || p.neverEnds '\r') && q.passesReturn
  | alt p q => p.passesReturn && q.passesReturn
  | _ => false

theorem size_return (line : List Char) : (line ++ ['\r']).toArray.size = line.length + 1 := by
  rw [List.size_toArray, List.length_append]
  rfl

theorem charAt_return (line : List Char) (s : CharSet) :
    charAt (line ++ ['\r']).toArray s line.length = s.contains '\r' := by
  rw [charAt_append]
  rfl

theorem lt_of_charAt_return (hs : s.contains '\r' = false) (h : charAt (line ++ ['\r']).toArray s i = true) :
    i < line.length := by
  have hlt := charAt_lt h
  rw [size_return] at hlt
  apply Nat.lt_of_le_of_ne (Nat.le_of_lt_succ hlt)
  intro heq
  rw [heq, charAt_return, hs] at h
  cases h

theorem isEnd_return_iff : isEnd (line ++ ['\r']).toArray i = true ↔ i = line.length + 1 := by
  unfold isEnd
  have hback : ((line ++ ['\r']).toArray.back? == some '\n') = false := by
    rw [List.back?_toArray, List.getLast?_concat]
    rfl
  rw [hback, Bool.and_false, Bool.or_false, beq_iff_eq, size_return]

theorem isEnd_length (line : List Char) : isEnd line.toArray line.length = true := by
  unfold isEnd
  rw [List.size_toArray, beq_self_eq_true, Bool.true_or]

/-- At the end of a text nothing comes next but a line feed. -/
theorem charAt_of_isEnd (hend : isEnd t i = true) (hs : s.contains '\n' = true) (hle : i ≤ j) (hj : j < t.size) :
    charAt t s j = true := by
  rcases Bool.or_eq_true_iff.mp hend with hsize | hfeed
  · have hsize := beq_iff_eq.mp hsize
    omega
  · obtain ⟨hsize, hback⟩ := Bool.and_eq_true_iff.mp hfeed
    have hsize := beq_iff_eq.mp hsize
    obtain rfl : j = t.size - 1 := by omega
    rw [charAt_eq_any, ← Array.back?_eq_getElem?, beq_iff_eq.mp hback]
    exact hs

/-- The rest of a line goes on over the return. -/
theorem begins_rest_return_iff (hfeed : s.contains '\n' = true) (hreturn : s.contains '\r' = true)
    (hi : i ≤ line.length) :
    (∃ k, Spans (line ++ ['\r']).toArray (seq (run s) atEnd) i k) ↔
      ∃ k, Spans line.toArray (seq (run s) atEnd) i k := by
  constructor
  · intro ⟨_, m, ⟨_, hall⟩, hend, _⟩
    obtain rfl := isEnd_return_iff.mp hend
    refine ⟨_, line.length, ⟨hi, fun k hle hlt => ?_⟩, isEnd_length line, rfl⟩
    rw [← charAt_append_left ['\r'] hlt]
    exact hall k hle (Nat.lt_succ_of_lt hlt)
  · intro ⟨_, m, ⟨_, hall⟩, hend, _⟩
    refine ⟨_, line.length + 1, ⟨Nat.le_succ_of_le hi, fun k hle hlt => ?_⟩, isEnd_return_iff.mpr rfl, rfl⟩
    rcases Nat.lt_succ_iff_lt_or_eq.mp hlt with hin | rfl
    · rw [charAt_append_left _ hin]
      rcases Nat.lt_or_ge k m with hrun | hout
      · exact hall k hle hrun
      · exact charAt_of_isEnd hend hfeed hout hin
    · rw [charAt_return]
      exact hreturn

/-- Two parts of a pattern meet before the return if the second one is not empty or the first one does not end
with a return. -/
theorem le_length_of_meet (hp : (!q.nullable || p.neverEnds '\r') = true) (hi : i ≤ line.length)
    (hfirst : Spans (line ++ ['\r']).toArray p i m) (hsecond : Spans (line ++ ['\r']).toArray q m k) :
    m ≤ line.length := by
  rcases Bool.or_eq_true_iff.mp hp with hsome | hends
  · have hlt := hsecond.start_lt (Bool.not_eq_true' _ ▸ hsome)
    rw [size_return] at hlt
    exact Nat.le_of_lt_succ hlt
  · have hreturn : (line ++ ['\r']).toArray[line.length]? = some '\r' := charAt_single.mp (charAt_return line _)
    have hne := hfirst.ne_of_neverEnds hends hreturn
    have hle := hfirst.le_size (by rw [size_return]; omega)
    rw [size_return] at hle
    omega

/-- There is a piece from a place with a carriage return at the end of the line if and only if there is one
without. -/
theorem begins_return_iff (hp : p.passesReturn = true) (hi : i ≤ line.length) :
    (∃ k, Spans (line ++ ['\r']).toArray p i k) ↔ ∃ k, Spans line.toArray p i k := by
  fun_induction passesReturn p generalizing i with
  | case1 s =>
    rw [Bool.not_eq_true'] at hp
    constructor
    · intro ⟨k, hchar, hk⟩
      have hlt := lt_of_charAt_return hp hchar
      rw [charAt_append_left _ hlt] at hchar
      exact ⟨k, hchar, hk⟩
    · intro ⟨k, hchar, hk⟩
      have hlt := charAt_lt hchar
      rw [← charAt_append_left ['\r'] hlt] at hchar
      exact ⟨k, hchar, hk⟩
  | case2 s =>
    obtain ⟨hfeed, hreturn⟩ := Bool.and_eq_true_iff.mp hp
    exact begins_rest_return_iff hfeed hreturn hi
  | case3 p q _ ih =>
    obtain ⟨hp, hq⟩ := Bool.and_eq_true_iff.mp hp
    obtain ⟨hp, hmeet⟩ := Bool.and_eq_true_iff.mp hp
    constructor
    · intro ⟨k, m, hfirst, hsecond⟩
      have hm := le_length_of_meet hmeet hi hfirst hsecond
      obtain ⟨k, hsecond⟩ := (ih hq hm).mp ⟨k, hsecond⟩
      exact ⟨k, m, (spans_append_iff _ hp hm).mp hfirst, hsecond⟩
    · intro ⟨k, m, hfirst, hsecond⟩
      have hm : m ≤ line.length := Spans.le_size hfirst hi
      obtain ⟨k, hsecond⟩ := (ih hq hm).mpr ⟨k, hsecond⟩
      exact ⟨k, m, (spans_append_iff _ hp hm).mpr hfirst, hsecond⟩
  | case4 p q ihp ihq =>
    obtain ⟨hp, hq⟩ := Bool.and_eq_true_iff.mp hp
    show (∃ k, _ ∨ _) ↔ ∃ k, _ ∨ _
    rw [exists_or, exists_or]
    exact or_congr (ihp hp hi) (ihq hq hi)
  | case5 => cases hp

/-! ## Before a line feed -/

/-- The second text is the first one with a carriage return more, before the line feed at place `n`. -/
structure ReturnAt (t t' : Array Char) (n : Nat) : Prop where
  before : ∀ i, i < n → t'[i]? = t[i]?
  feed : t[n]? = some '\n'
  carriage : t'[n]? = some '\r'
  after : ∀ i, n ≤ i → t'[i + 1]? = t[i]?

theorem returnAt_append (before after : List Char) :
    ReturnAt (before ++ '\n' :: after).toArray (before ++ '\r' :: '\n' :: after).toArray before.length where
  before i hi := by
    rw [List.getElem?_toArray, List.getElem?_toArray, List.getElem?_append_left hi, List.getElem?_append_left hi]
  feed := by
    rw [List.getElem?_toArray, List.getElem?_append_right (Nat.le_refl _), Nat.sub_self]
    rfl
  carriage := by
    rw [List.getElem?_toArray, List.getElem?_append_right (Nat.le_refl _), Nat.sub_self]
    rfl
  after i hi := by
    rw [List.getElem?_toArray, List.getElem?_toArray, List.getElem?_append_right (Nat.le_succ_of_le hi),
      List.getElem?_append_right hi, Nat.succ_sub hi, List.getElem?_cons_succ]

/-- Where a place of the text is in the text with a return more at place `n`. -/
def moved (n i : Nat) : Nat := if i ≤ n then i else i + 1

theorem moved_of_le (hi : i ≤ n) : moved n i = i := if_pos hi

theorem moved_le_moved : moved n i ≤ moved n j ↔ i ≤ j := by
  unfold moved
  split <;> split <;> omega

theorem moved_lt_moved : moved n i < moved n j ↔ i < j := by
  unfold moved
  split <;> split <;> omega

theorem moved_inj : moved n i = moved n j ↔ i = j := by
  rw [Nat.le_antisymm_iff, Nat.le_antisymm_iff, moved_le_moved, moved_le_moved]

theorem moved_eq_succ_iff (hi : i ≠ n) : moved n j = moved n i + 1 ↔ j = i + 1 := by
  unfold moved
  split <;> split <;> omega

/-- All places but the one between the return and the line feed are places of the text. -/
theorem exists_moved (hm : m ≠ n + 1) : ∃ i, m = moved n i := by
  rcases Nat.lt_or_ge n m with hlt | hle
  · refine ⟨m - 1, ?_⟩
    unfold moved
    split <;> omega
  · exact ⟨m, (if_pos hle).symm⟩

/-- Each set with the line feed has the carriage return as well, and no two parts meet after a return and before a
line feed. -/
def ignoresReturn : Pattern → Bool
  | empty | boundary => true
  | char s => !s.contains '\n' && !s.contains '\r'
  | run s => !s.contains '\n' || s.contains '\r'
  | seq (char r) (run s) => decide (r = s) && (!s.contains '\n' || s.contains '\r')
  | seq p q => p.ignoresReturn && q.ignoresReturn && (q.neverBegins '\n' || p.neverEnds '\r')
  | alt p q => p.ignoresReturn && q.ignoresReturn
  | many _ | atStart | atEnd | notAhead _ => false

namespace ReturnAt

variable (h : ReturnAt t t' n)

include h

theorem charAt_before (hi : i < n) : charAt t' s i = charAt t s i := by
  rw [charAt_eq_any, charAt_eq_any, h.before i hi]

theorem charAt_after (hi : n ≤ i) : charAt t' s (i + 1) = charAt t s i := by
  rw [charAt_eq_any, charAt_eq_any, h.after i hi]

theorem charAt_feed : charAt t s n = s.contains '\n' := by
  rw [charAt_eq_any, h.feed, Option.any_some]

theorem charAt_carriage : charAt t' s n = s.contains '\r' := by
  rw [charAt_eq_any, h.carriage, Option.any_some]

theorem charAt_moved (hi : i ≠ n) : charAt t' s (moved n i) = charAt t s i := by
  unfold moved
  split
  · exact h.charAt_before (by omega)
  · exact h.charAt_after (by omega)

/-- A stretch of characters of a set that has the return if it has the line feed. -/
theorem forall_charAt_moved (hs : s.contains '\n' = true → s.contains '\r' = true) :
    (∀ k, moved n i ≤ k → k < moved n j → charAt t' s k = true) ↔ ∀ k, i ≤ k → k < j → charAt t s k = true := by
  have hle : ∀ k, moved n i ≤ k ↔ if i ≤ n then i ≤ k else i + 1 ≤ k := by
    intro k
    unfold moved
    split <;> rfl
  have hlt : ∀ k, k < moved n j ↔ if j ≤ n then k < j else k < j + 1 := by
    intro k
    unfold moved
    split <;> rfl
  simp only [hle, hlt]
  constructor
  · intro hall k hle hlt
    rcases Nat.lt_or_ge k n with hbefore | hafter
    · rw [← h.charAt_before hbefore]
      exact hall k (by split <;> omega) (by split <;> omega)
    · rw [← h.charAt_after hafter]
      exact hall (k + 1) (by split <;> omega) (by split <;> omega)
  · intro hall k hle hlt
    rcases Nat.lt_trichotomy k n with hbefore | rfl | hafter
    · rw [h.charAt_before hbefore]
      exact hall k (by split at hle <;> omega) (by split at hlt <;> omega)
    · rw [h.charAt_carriage]
      apply hs
      rw [← h.charAt_feed]
      exact hall k (by split at hle <;> omega) (by split at hlt <;> omega)
    · obtain ⟨k, rfl⟩ := Nat.exists_eq_succ_of_ne_zero (by omega : k ≠ 0)
      rw [h.charAt_after (Nat.le_of_lt_succ hafter)]
      exact hall k (by split at hle <;> omega) (by split at hlt <;> omega)

theorem wordAfter_moved (i : Nat) : wordAfter t' (moved n i) = wordAfter t i := by
  rw [wordAfter_eq_any, wordAfter_eq_any]
  unfold moved
  split
  · next hle =>
    rcases Nat.eq_or_lt_of_le hle with rfl | hlt
    · rw [h.feed, h.carriage]
      rfl
    · rw [h.before i hlt]
  · next hlt => rw [h.after i (by omega)]

theorem wordBefore_moved (i : Nat) : wordBefore t' (moved n i) = wordBefore t i := by
  cases i with
  | zero =>
    rw [moved_of_le (Nat.zero_le n)]
    rfl
  | succ i =>
    unfold moved
    split
    · next hle =>
      show wordAfter t' i = wordAfter t i
      rw [wordAfter_eq_any, wordAfter_eq_any, h.before i hle]
    · next hlt =>
      show wordAfter t' (i + 1) = wordAfter t i
      rw [wordAfter_eq_any, wordAfter_eq_any, h.after i (by omega)]

theorem isBoundary_moved (i : Nat) : isBoundary t' (moved n i) = isBoundary t i := by
  unfold isBoundary
  rw [h.wordBefore_moved, h.wordAfter_moved]

/-- No piece begins between the return and the line feed if none begins with a line feed. -/
theorem ne_of_neverBegins (hp : p.neverBegins '\n' = true) (hspans : Spans t' p i j) : i ≠ n + 1 := by
  rintro rfl
  have hfeed : t'[n + 1]? = some '\n' := by
    rw [h.after n (Nat.le_refl n)]
    exact h.feed
  exact not_spans_of_neverBegins hp hfeed hspans

/-- A character that is neither a return nor a line feed. -/
theorem spans_char_moved_iff (hfeed : s.contains '\n' = false) (hreturn : s.contains '\r' = false) :
    Spans t' (char s) (moved n i) (moved n j) ↔ Spans t (char s) i j := by
  show charAt t' s (moved n i) = true ∧ moved n j = moved n i + 1 ↔ charAt t s i = true ∧ j = i + 1
  by_cases hi : i = n
  · subst hi
    rw [moved_of_le (Nat.le_refl i), h.charAt_feed, h.charAt_carriage, hfeed, hreturn]
    simp only [Bool.false_eq_true, false_and]
  · rw [h.charAt_moved hi, moved_eq_succ_iff hi]

/-- A pattern that ignores the return spans the same with it as without. -/
theorem spans_moved_iff (hp : p.ignoresReturn = true) :
    Spans t' p (moved n i) (moved n j) ↔ Spans t p i j := by
  have hset : ∀ {s : CharSet}, (!s.contains '\n' || s.contains '\r') = true →
      s.contains '\n' = true → s.contains '\r' = true := by
    intro s hs hfeed
    rw [hfeed] at hs
    exact hs
  fun_induction ignoresReturn p generalizing i j with
  | case1 => exact moved_inj
  | case2 => exact and_congr (by rw [h.isBoundary_moved]) moved_inj
  | case3 s =>
    obtain ⟨hfeed, hreturn⟩ := Bool.and_eq_true_iff.mp hp
    exact h.spans_char_moved_iff (Bool.not_eq_true' _ ▸ hfeed) (Bool.not_eq_true' _ ▸ hreturn)
  | case4 s => exact and_congr moved_le_moved (h.forall_charAt_moved (hset hp))
  | case5 r s =>
    obtain ⟨hsame, hs⟩ := Bool.and_eq_true_iff.mp hp
    obtain rfl := of_decide_eq_true hsame
    show Spans t' (atLeast 1 r) _ _ ↔ Spans t (atLeast 1 r) _ _
    rw [spans_atLeast_one_iff, spans_atLeast_one_iff]
    exact and_congr moved_lt_moved (h.forall_charAt_moved (hset hs))
  | case6 p q _ ihp ihq =>
    obtain ⟨hp, hmeet⟩ := Bool.and_eq_true_iff.mp hp
    obtain ⟨hp, hq⟩ := Bool.and_eq_true_iff.mp hp
    constructor
    · intro ⟨m', hfirst, hsecond⟩
      have hne : m' ≠ n + 1 := (Bool.or_eq_true_iff.mp hmeet).elim (h.ne_of_neverBegins · hsecond)
        (hfirst.ne_of_neverEnds · h.carriage)
      obtain ⟨m, rfl⟩ := exists_moved hne
      exact ⟨m, (ihp hp).mp hfirst, (ihq hq).mp hsecond⟩
    · intro ⟨m, hfirst, hsecond⟩
      exact ⟨moved n m, (ihp hp).mpr hfirst, (ihq hq).mpr hsecond⟩
  | case7 p q ihp ihq =>
    obtain ⟨hp, hq⟩ := Bool.and_eq_true_iff.mp hp
    exact or_congr (ihp hp) (ihq hq)
  | case8 | case9 | case10 | case11 => cases hp

/-- Pieces one after the other are so with the return as well. -/
theorem pieces_moved (hp : p.ignoresReturn = true) (hpieces : Pieces t p i m) : Pieces t' p (moved n i) m := by
  induction hpieces with
  | nil i => exact .nil _
  | cons hle hspans _ ih => exact .cons (moved_le_moved.mpr hle) ((h.spans_moved_iff hp).mpr hspans) ih

/-- Pieces one after the other, none of which begins with the line feed or ends with the return, are so without
the return. -/
theorem pieces_of_moved (hp : p.ignoresReturn = true) (hbegins : p.neverBegins '\n' = true)
    (hends : p.neverEnds '\r' = true) (hpieces : Pieces t' p (moved n i) m) : Pieces t p i m := by
  generalize hi : moved n i = i' at hpieces
  induction hpieces generalizing i with
  | nil => exact .nil i
  | @cons _ j' k' m hle hspans _ ih =>
    subst hi
    obtain ⟨j, rfl⟩ := exists_moved (h.ne_of_neverBegins hbegins hspans)
    obtain ⟨k, rfl⟩ := exists_moved (hspans.ne_of_neverEnds hends h.carriage)
    exact .cons (moved_le_moved.mp hle) ((h.spans_moved_iff hp).mp hspans) (ih rfl)

/-- As many pieces are counted with the return as without. -/
theorem count_eq (hp : p.ignoresReturn = true) (hbegins : p.neverBegins '\n' = true)
    (hends : p.neverEnds '\r' = true) (horderly : ∀ t, Orderly t p) : p.count t' = p.count t := by
  have hsome : p.nullable = false := Bool.not_eq_true' _ ▸ (Bool.and_eq_true_iff.mp hbegins).1
  have hzero : moved n 0 = 0 := moved_of_le (Nat.zero_le n)
  apply Nat.le_antisymm
  · apply le_count_of_pieces hsome (horderly t)
    apply h.pieces_of_moved hp hbegins hends
    rw [hzero]
    exact pieces_count hsome t'
  · apply le_count_of_pieces hsome (horderly t')
    rw [← hzero]
    exact h.pieces_moved hp (pieces_count hsome t)

end ReturnAt

end Pattern

end SourceScan
