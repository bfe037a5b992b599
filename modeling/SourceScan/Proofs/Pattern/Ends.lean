import SourceScan.Proofs.Function.HeaderName

/-!
# Where a pattern's pieces end

What the form of a pattern says about the places at which its pieces end. A pattern has none of the characters
that it avoids (`avoids`), it ends with a character of its last set (`last`, `neverEnds`), and it may end with the first
character of some set that comes at all (`closedBy`).

A pattern may span several pieces from one place. It spans one at most that ends before a character of a set, if
each choice that it leaves is made by the next character (`EndsOnce`, `endsOnce_of_decided`); what stands where
the choice is made follows from the first characters of what comes next (`opening`).

The conditions are computed. They are sufficient, and each is as narrow as the patterns in use allow.
-/

namespace SourceScan

namespace CharSet

variable {r s : CharSet} {c : Char}

/-- No character of `s` is in the other set, as far as their forms tell. -/
def lacks (s : CharSet) : CharSet → Bool
  | single c => !s.contains c
  | union a b => s.lacks a && s.lacks b
  | blank => decide (s = word)
  | word => decide (s = blank)
  | _ => false

/-- The two sets have no character in common, as far as their forms tell. -/
def disjoint : CharSet → CharSet → Bool
  | single c, s => !s.contains c
  | union a b, s => a.disjoint s && b.disjoint s
  | r, s => r.lacks s

theorem not_contains_of_lacks (h : s.lacks r = true) (hc : r.contains c = true) : s.contains c = false := by
  induction r with
  | single d =>
    obtain rfl := beq_iff_eq.mp hc
    exact Bool.not_eq_true' _ ▸ h
  | union a b iha ihb =>
    obtain ⟨ha, hb⟩ := Bool.and_eq_true_iff.mp h
    exact (Bool.or_eq_true_iff.mp hc).elim (iha ha) (ihb hb)
  | blank =>
    obtain rfl := of_decide_eq_true h
    exact Text.not_isWord_of_isBlank hc
  | word =>
    obtain rfl := of_decide_eq_true h
    apply Bool.eq_false_iff.mpr
    intro hblank
    exact Bool.false_ne_true ((Text.not_isWord_of_isBlank hblank).symm.trans hc)
  | _ => cases h

/-- A character of the one set is not in the other. -/
theorem not_contains_of_disjoint (h : r.disjoint s = true) (hc : s.contains c = true) : r.contains c = false := by
  induction r with
  | single d =>
    apply Bool.eq_false_iff.mpr
    intro heq
    obtain rfl := beq_iff_eq.mp heq
    have hnot : s.contains c = false := Bool.not_eq_true' _ ▸ h
    exact Bool.false_ne_true (hnot.symm.trans hc)
  | union a b iha ihb =>
    obtain ⟨ha, hb⟩ := Bool.and_eq_true_iff.mp h
    exact Bool.or_eq_false_iff.mpr ⟨iha ha, ihb hb⟩
  | _ => exact not_contains_of_lacks h hc

end CharSet

namespace Pattern

variable {t : Array Char} {p q : Pattern} {r s after : CharSet} {i j j' k m : Nat}

theorem not_charAt_of_disjoint (h : r.disjoint s = true) (hchar : charAt t s i = true) : charAt t r i = false := by
  rw [charAt_eq_any] at hchar ⊢
  obtain ⟨c, hc, hin⟩ := (Option.any_eq_true _ _).mp hchar
  rw [hc]
  exact CharSet.not_contains_of_disjoint h hin

/-- Characters of disjoint sets do not stand at one place. -/
theorem not_both_of_disjoint (h : r.disjoint s = true) (hr : charAt t r i = true) : ¬charAt t s i = true :=
  fun hs => Bool.false_ne_true ((not_charAt_of_disjoint h hs).symm.trans hr)

theorem charAt_union : charAt t (.union r s) i = (charAt t r i || charAt t s i) := by
  rw [charAt_eq_any, charAt_eq_any, charAt_eq_any]
  cases t[i]? <;> rfl

/-! ## Characters of a piece -/

/-- No character of the pattern is in the set. -/
def avoids (s : CharSet) : Pattern → Bool
  | char r | run r => r.disjoint s
  | seq p q | alt p q => p.avoids s && q.avoids s
  | many p => p.avoids s
  | empty | boundary | atStart | atEnd | notAhead _ => true

/-- No character of a piece is in a set that the pattern avoids. -/
theorem Spans.not_charAt_of_avoids (hp : p.avoids s = true) (h : Spans t p i j) :
    ∀ m, i ≤ m → m < j → charAt t s m = false := by
  have hset : ∀ {r : CharSet} {m : Nat}, r.disjoint s = true → charAt t r m = true → charAt t s m = false :=
    fun hr hm => Bool.eq_false_iff.mpr (not_both_of_disjoint hr hm)
  induction p generalizing i j with
  | char r =>
    obtain ⟨hchar, rfl⟩ := h
    intro m hle hlt
    obtain rfl : m = i := by omega
    exact hset hp hchar
  | run r => exact fun m hle hlt => hset hp (h.2 m hle hlt)
  | seq p q ihp ihq =>
    obtain ⟨hp, hq⟩ := Bool.and_eq_true_iff.mp hp
    obtain ⟨k, hfirst, hsecond⟩ := h
    intro m hle hlt
    rcases Nat.lt_or_ge m k with hin | hout
    · exact ihp hp hfirst m hle hin
    · exact ihq hq hsecond m hout hlt
  | alt p q ihp ihq =>
    obtain ⟨hp, hq⟩ := Bool.and_eq_true_iff.mp hp
    exact h.elim (ihp hp) (ihq hq)
  | many p ih =>
    induction h with
    | nil i => exact fun m hle hlt => absurd hle (Nat.not_le_of_lt hlt)
    | @cons i k j hstep _ ihrest =>
      intro m hle hlt
      rcases Nat.lt_or_ge m k with hin | hout
      · exact ih hp hstep m hle hin
      · exact ihrest m hout hlt
  | empty =>
    cases h
    exact fun m hle hlt => absurd hle (Nat.not_le_of_lt hlt)
  | _ =>
    obtain ⟨_, rfl⟩ := h
    exact fun m hle hlt => absurd hle (Nat.not_le_of_lt hlt)

/-- The characters that a piece of the pattern can end with, where `none` is the empty set. -/
def last : Pattern → Option CharSet
  | char s | run s => some s
  | seq p q => if q.nullable then joinSets p.last q.last else q.last
  | alt p q => joinSets p.last q.last
  | many p => p.last
  | _ => none

/-- A piece that is not empty ends with a character of the pattern's last set. -/
theorem Spans.charAt_last (p : Pattern) {i j : Nat} (h : Spans t p i j) (hlt : i < j) :
    ∃ s, p.last = some s ∧ charAt t s (j - 1) = true := by
  induction p generalizing i j with
  | char s =>
    obtain ⟨hchar, rfl⟩ := h
    exact ⟨s, rfl, hchar⟩
  | run s => exact ⟨s, rfl, h.2 (j - 1) (by omega) (by omega)⟩
  | seq p q ihp ihq =>
    obtain ⟨m, hp, hq⟩ := h
    unfold last
    split
    · rcases Nat.eq_or_lt_of_le hq.le with rfl | hmore
      · exact charAt_joinSets_left (ihp hp hlt)
      · exact charAt_joinSets_right (ihq hq hmore)
    · next hn => exact ihq hq (Spans.lt_of_not_nullable q hq (by simpa using hn))
  | alt p q ihp ihq =>
    exact h.elim (fun h => charAt_joinSets_left (ihp h hlt)) fun h => charAt_joinSets_right (ihq h hlt)
  | many p ih =>
    induction h with
    | nil i => exact absurd hlt (Nat.lt_irrefl i)
    | @cons i k j hstep hrest ihrest =>
      rcases Nat.eq_or_lt_of_le (Spans.le (p := many p) hrest) with rfl | hmore
      · exact ih hstep hlt
      · exact ihrest hmore
  | empty =>
    cases h
    exact absurd hlt (Nat.lt_irrefl i)
  | _ =>
    obtain ⟨_, rfl⟩ := h
    exact absurd hlt (Nat.lt_irrefl i)

/-- No piece of the pattern is empty or ends with the character. -/
def neverEnds (c : Char) (p : Pattern) : Bool := !p.nullable && !p.last.any (·.contains c)

theorem Spans.ne_of_neverEnds {c : Char} (hp : p.neverEnds c = true) (h : Spans t p i j) (hc : t[k]? = some c) :
    j ≠ k + 1 := by
  rintro rfl
  obtain ⟨hsome, hlast⟩ := Bool.and_eq_true_iff.mp hp
  rw [Bool.not_eq_true'] at hsome hlast
  obtain ⟨s, hs, hchar⟩ := h.charAt_last p (Spans.lt_of_not_nullable p h hsome)
  rw [Nat.add_sub_cancel, charAt_eq_any, hc] at hchar
  rw [hs] at hlast
  exact Bool.false_ne_true (hlast.symm.trans hchar)

/-- The pattern ends with a character of the set and has none before. -/
def closedBy (s : CharSet) : Pattern → Bool
  | char r => decide (r = s)
  | seq p q => p.avoids s && q.closedBy s
  | _ => false

/-- A piece ends with the first character of the set from where it begins. -/
theorem Spans.closed (hp : p.closedBy s = true) (h : Spans t p i j) :
    ∃ k, j = k + 1 ∧ i ≤ k ∧ charAt t s k = true ∧ ∀ m, i ≤ m → m < k → charAt t s m = false := by
  induction p generalizing i with
  | char r =>
    obtain rfl := of_decide_eq_true hp
    obtain ⟨hchar, rfl⟩ := h
    exact ⟨i, rfl, Nat.le_refl i, hchar, fun m hle hlt => absurd hle (Nat.not_le_of_lt hlt)⟩
  | seq p q _ ihq =>
    obtain ⟨hp, hq⟩ := Bool.and_eq_true_iff.mp hp
    obtain ⟨n, hfirst, hsecond⟩ := h
    obtain ⟨k, rfl, hle, hchar, hnone⟩ := ihq hq hsecond
    refine ⟨k, rfl, Nat.le_trans hfirst.le hle, hchar, fun m hm hlt => ?_⟩
    rcases Nat.lt_or_ge m n with hin | hout
    · exact hfirst.not_charAt_of_avoids hp m hm hin
    · exact hnone m hout hlt
  | _ => cases hp

/-! ## Pieces with one end -/

/-- From one place, pieces of the pattern that end before characters of the set end at one place. -/
def EndsOnce (after : CharSet) (p : Pattern) : Prop :=
  ∀ t i j j', Spans t p i j → Spans t p i j' → charAt t after j = true → charAt t after j' = true → j = j'

/-- The characters that can stand where the pattern begins, if one of the set stands where it ends. -/
def opening (p : Pattern) (after : CharSet) : CharSet :=
  match p.first with
  | none => after
  | some s => if p.nullable then .union s after else s

theorem Spans.charAt_opening (h : Spans t p i j) (hafter : charAt t after j = true) :
    charAt t (p.opening after) i = true := by
  unfold opening
  rcases Nat.eq_or_lt_of_le h.le with rfl | hlt
  · cases p.first with
    | none => exact hafter
    | some s =>
      dsimp only
      split
      · rw [charAt_union, hafter, Bool.or_true]
      · next hn => exact absurd (Spans.lt_of_not_nullable p h (by simpa using hn)) (Nat.lt_irrefl i)
  · obtain ⟨s, hs, hchar⟩ := Spans.charAt_first p h hlt
    rw [hs]
    dsimp only
    split
    · rw [charAt_union, hchar, Bool.true_or]
    · exact hchar

/-- Characters that a pattern does not take up end its pieces. -/
theorem endsOnce_of_avoids (hp : p.avoids after = true) : EndsOnce after p := by
  have hnot : ∀ {t i j j'}, Spans t p i j' → i ≤ j → charAt t after j = true → ¬j < j' := by
    intro t i j j' h hle hj hlt
    exact Bool.false_ne_true ((h.not_charAt_of_avoids hp j hle hlt).symm.trans hj)
  intro t i j j' h h' hj hj'
  exact Nat.le_antisymm (Nat.le_of_not_lt (hnot h h'.le hj')) (Nat.le_of_not_lt (hnot h' h.le hj))

theorem EndsOnce.seq (hp : EndsOnce (q.opening after) p) (hq : EndsOnce after q) : EndsOnce after (seq p q) := by
  rintro t i j j' ⟨m, hfirst, hsecond⟩ ⟨m', hfirst', hsecond'⟩ hj hj'
  obtain rfl := hp t i m m' hfirst hfirst' (hsecond.charAt_opening hj) (hsecond'.charAt_opening hj')
  exact hq t m j j' hsecond hsecond' hj hj'

theorem EndsOnce.alt (hp : EndsOnce after p) (hq : EndsOnce after q)
    (hapart : (p.opening after).disjoint (q.opening after) = true) : EndsOnce after (alt p q) := by
  intro t i j j' h h' hj hj'
  rcases h with h | h <;> rcases h' with h' | h'
  · exact hp t i j j' h h' hj hj'
  · exact absurd (h'.charAt_opening hj') (not_both_of_disjoint hapart (h.charAt_opening hj))
  · exact absurd (h.charAt_opening hj) (not_both_of_disjoint hapart (h'.charAt_opening hj'))
  · exact hq t i j j' h h' hj hj'

/-- Each choice that the pattern leaves is made by the next character, if one of the set stands where it ends. -/
def decided (after : CharSet) : Pattern → Bool
  | seq p q => (seq p q).avoids after || (p.decided (q.opening after) && q.decided after)
  | alt p q => p.decided after && q.decided after && (p.opening after).disjoint (q.opening after)
  | run s => s.disjoint after
  | many p => p.avoids after
  | empty | char _ | boundary | atStart | atEnd | notAhead _ => true

theorem endsOnce_of_decided (hp : p.decided after = true) : EndsOnce after p := by
  induction p generalizing after with
  | seq p q ihp ihq =>
    rcases Bool.or_eq_true_iff.mp hp with havoids | hparts
    · exact endsOnce_of_avoids havoids
    · obtain ⟨hp, hq⟩ := Bool.and_eq_true_iff.mp hparts
      exact (ihp hp).seq (ihq hq)
  | alt p q ihp ihq =>
    obtain ⟨hparts, hapart⟩ := Bool.and_eq_true_iff.mp hp
    obtain ⟨hp, hq⟩ := Bool.and_eq_true_iff.mp hparts
    exact (ihp hp).alt (ihq hq) hapart
  | run s => exact endsOnce_of_avoids (p := run s) hp
  | many p => exact endsOnce_of_avoids (p := many p) hp
  | empty =>
    rintro t i j j' rfl rfl _ _
    rfl
  | _ =>
    rintro t i j j' ⟨_, rfl⟩ ⟨_, rfl⟩ _ _
    rfl

end Pattern

end SourceScan
