import Mathlib.Tactic.FieldSimp
import Mathlib.Tactic.Linarith
import Mathlib.Tactic.Positivity
import Mathlib.Tactic.Ring
import SourceScan.Number.Binary64

/-!
# The nearest integer

`NearestEven` says which integer a number is rounded to: the one nearest to it, and of two that are equally near
the even one. The order of two numbers is kept by that (`NearestEven.mono`), so there is no more than one such
integer (`NearestEven.unique`), and `Binary64.divEven` finds it for a quotient of naturals.
-/

namespace SourceScan

/-- `n` is the integer nearest to `x`, and an even one if another is as near. -/
structure NearestEven (x : ℚ) (n : Int) : Prop where
  near : ∀ k : Int, |x - n| ≤ |x - k|
  even : ∀ k : Int, k ≠ n → |x - k| = |x - n| → Even n

namespace NearestEven

variable {x y : ℚ} {n m : Int}

/-- Of two integers the larger one is the nearer exactly from the middle between them on. -/
theorem near_iff_middle_le (h : m < n) : |x - n| ≤ |x - m| ↔ ((m : ℚ) + n) / 2 ≤ x := by
  have hlt : (m : ℚ) < n := by exact_mod_cast h
  rcases abs_cases (x - n) with ⟨hn, _⟩ | ⟨hn, _⟩ <;> rcases abs_cases (x - m) with ⟨hm, _⟩ | ⟨hm, _⟩ <;>
    rw [hn, hm] <;> constructor <;> intro <;> linarith

theorem near_iff_le_middle (h : m < n) : |x - m| ≤ |x - n| ↔ x ≤ ((m : ℚ) + n) / 2 := by
  have hlt : (m : ℚ) < n := by exact_mod_cast h
  rcases abs_cases (x - n) with ⟨hn, _⟩ | ⟨hn, _⟩ <;> rcases abs_cases (x - m) with ⟨hm, _⟩ | ⟨hm, _⟩ <;>
    rw [hn, hm] <;> constructor <;> intro <;> linarith

/-- Rounding keeps the order. -/
theorem mono (hn : NearestEven x n) (hm : NearestEven y m) (h : x ≤ y) : n ≤ m := by
  by_contra hlt
  rw [not_le] at hlt
  -- Both numbers are then the middle between the two integers, so both of these are even.
  have hx := (near_iff_middle_le hlt).mp (hn.near m)
  have hy := (near_iff_le_middle hlt).mp (hm.near n)
  have hxn := le_antisymm ((near_iff_le_middle hlt).mpr (h.trans hy)) (hn.near m)
  have hym := le_antisymm ((near_iff_middle_le hlt).mpr (hx.trans h)) (hm.near n)
  obtain ⟨a, ha⟩ := hn.even m hlt.ne hxn
  obtain ⟨b, hb⟩ := hm.even n hlt.ne' hym
  -- Between two different even integers there is another, and it would be nearer.
  have hbetween : m + 1 < n := by omega
  have hmiddle := (near_iff_middle_le hbetween).mp (hn.near (m + 1))
  push_cast at hmiddle
  linarith

theorem unique (hn : NearestEven x n) (hm : NearestEven x m) : n = m :=
  le_antisymm (hn.mono hm le_rfl) (hm.mono hn le_rfl)

theorem neg (h : NearestEven x n) : NearestEven (-x) (-n) := by
  have hflip : ∀ k : Int, |-x - k| = |x - (-k : Int)| := by
    intro k
    rw [← abs_neg]
    push_cast
    ring_nf
  refine ⟨fun k => ?_, fun k hk heq => ?_⟩
  · rw [hflip, hflip, neg_neg]
    exact h.near (-k)
  · rw [hflip, hflip, neg_neg] at heq
    exact (h.even (-k) (fun hkn => hk (by omega)) heq).neg

/-- A number no further than a half from an integer is rounded to it, if that is even or nearer. -/
theorem of_half (h : |x - n| ≤ 1 / 2) (htie : |x - n| = 1 / 2 → Even n) : NearestEven x n := by
  have hother : ∀ k : Int, k ≠ n → 1 - |x - n| ≤ |x - k| := by
    intro k hk
    have hone : (1 : ℚ) ≤ |(k : ℚ) - n| := by
      exact_mod_cast Int.one_le_abs (sub_ne_zero.mpr hk)
    have htriangle := abs_sub_le (k : ℚ) x n
    rw [abs_sub_comm (k : ℚ) x] at htriangle
    linarith
  refine ⟨fun k => ?_, fun k hk heq => htie ?_⟩
  · by_cases hk : k = n
    · rw [hk]
    · linarith [hother k hk]
  · linarith [hother k hk]

theorem intCast (n : Int) : NearestEven n n := by
  refine of_half ?_ fun htie => ?_ <;> norm_num at *

/-! ## A whole part and a fraction -/

variable {q : Nat} {part : ℚ}

theorem add_of_lt_half (hpart : 0 ≤ part) (h : part < 1 / 2) : NearestEven (q + part) q := by
  have hdistance : |(q : ℚ) + part - (q : Int)| = part := by
    rw [Int.cast_natCast, add_sub_cancel_left, abs_of_nonneg hpart]
  refine .of_half ?_ fun htie => ?_
  · rw [hdistance]
    exact h.le
  · rw [hdistance] at htie
    exact absurd htie h.ne

theorem add_of_half_lt (h : 1 / 2 < part) (hpart : part < 1) : NearestEven (q + part) (q + 1 : Nat) := by
  have hdistance : |(q : ℚ) + part - ((q + 1 : Nat) : Int)| = 1 - part := by
    rw [abs_of_nonpos] <;> push_cast <;> linarith
  refine .of_half ?_ fun htie => ?_
  · rw [hdistance]
    linarith
  · rw [hdistance] at htie
    linarith

/-- Between two integers the even one is taken. -/
theorem add_half (q : Nat) : NearestEven (q + 1 / 2) (q + q % 2 : Nat) := by
  have heven : Even (q + q % 2) := by
    rw [Nat.even_iff]
    omega
  refine .of_half ?_ fun _ => by exact_mod_cast heven
  rcases Nat.mod_two_eq_zero_or_one q with hq | hq <;> rw [hq] <;> push_cast <;> norm_num

end NearestEven

/-- The quotient of two naturals rounded to a natural. -/
theorem nearestEven_divEven (num : Nat) {den : Nat} (hden : 0 < den) :
    NearestEven ((num : ℚ) / den) (Binary64.divEven num den : Nat) := by
  have hpos : (0 : ℚ) < den := by exact_mod_cast hden
  have hmod : num % den < den := Nat.mod_lt num hden
  have hsplit : (num : ℚ) / den = (num / den : Nat) + (num % den : Nat) / den := by
    field_simp
    exact_mod_cast (Nat.mod_add_div num den).symm.trans (by ring)
  rw [hsplit, Binary64.divEven]
  generalize num / den = q, num % den = r at hmod ⊢
  split
  · next hlow =>
    refine .add_of_lt_half (by positivity) ?_
    rw [div_lt_div_iff₀ hpos two_pos]
    exact_mod_cast (by omega : r * 2 < 1 * den)
  · next hlow =>
    split
    · next hhigh =>
      refine .add_of_half_lt ?_ ((div_lt_one hpos).mpr (by exact_mod_cast hmod))
      rw [div_lt_div_iff₀ two_pos hpos]
      exact_mod_cast (by omega : 1 * den < r * 2)
    · next hhigh =>
      have hr : (r : ℚ) / den = 1 / 2 := by
        rw [div_eq_div_iff hpos.ne' two_ne_zero]
        exact_mod_cast (by omega : r * 2 = 1 * den)
      rw [hr]
      exact .add_half q

end SourceScan
