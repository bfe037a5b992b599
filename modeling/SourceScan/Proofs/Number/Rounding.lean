import SourceScan.Proofs.Number.Finite
import SourceScan.Proofs.Number.Nearest

/-!
# Quotients in 53 bits

What a quotient becomes in the 64-bit format. `RoundsIn` says it of a number in units of a power of two: it is the
nearest whole number of units, and the units are the largest in which the number has 53 bits, but none is smaller
than the least. So the order of two numbers is kept (`RoundsIn.mono`), also where their units differ: a number
that has less than 53 bits in the larger units is rounded to no more than the least one that has as many. A number
that is some units of 53 bits is kept (`RoundsIn.eq_of_units`).

`exists_roundsIn` says that `ofRatio` rounds like that, and `round?_eq_some` that a number is written as the integer
nearest to its value.
-/

namespace SourceScan.Binary64

variable {x y v w : ℚ} {e f : Int} {k l : Int} {num den : Nat} {negative : Bool}

/-- The value of a finite number. -/
def value? : Binary64 → Option ℚ
  | finite negative mantissa exponent =>
    some (if negative then -(mantissa * 2 ^ exponent) else mantissa * 2 ^ exponent)
  | _ => none

theorem cast_pow2 (e : Nat) : (pow2 e : ℚ) = 2 ^ e := by
  rw [pow2, Nat.pow_eq, Nat.cast_pow, Nat.cast_ofNat]

theorem pow2_pos (e : Nat) : 0 < pow2 e := Nat.two_pow_pos e

theorem zpow_toNat_of_nonneg (h : 0 ≤ e) : (2 : ℚ) ^ e.toNat = 2 ^ e := by
  rw [← zpow_natCast, Int.toNat_of_nonneg h]

/-- A mantissa in units of a power of two is rounded to the nearest integer. -/
theorem nearestEven_roundMagnitude (mantissa : Nat) (exponent : Int) :
    NearestEven (mantissa * 2 ^ exponent) (roundMagnitude mantissa exponent : Nat) := by
  rw [roundMagnitude]
  split
  · next h =>
    have hwhole : (mantissa : ℚ) * 2 ^ exponent = ((mantissa * pow2 exponent.toNat : Nat) : Int) := by
      push_cast
      rw [cast_pow2, zpow_toNat_of_nonneg h]
    rw [hwhole]
    exact .intCast _
  · next h =>
    have hpart : (mantissa : ℚ) * 2 ^ exponent = mantissa / (pow2 (-exponent).toNat : Nat) := by
      rw [cast_pow2, zpow_toNat_of_nonneg (by omega), zpow_neg, div_inv_eq_mul]
    rw [hpart]
    exact nearestEven_divEven mantissa (pow2_pos _)

/-- A number that is finite is rounded to the integer nearest to its value, and no other is rounded. -/
theorem round?_eq_some {b : Binary64} {n : Int} :
    b.round? = some n ↔ ∃ v, b.value? = some v ∧ NearestEven v n := by
  cases b with
  | nan => simp only [round?, value?, reduceCtorEq, false_and, exists_false]
  | infinite negative => simp only [round?, value?, reduceCtorEq, false_and, exists_false]
  | finite negative mantissa exponent =>
    have hround := nearestEven_roundMagnitude mantissa exponent
    have hsigned : NearestEven (if negative then -((mantissa : ℚ) * 2 ^ exponent) else mantissa * 2 ^ exponent)
        (if negative then -(roundMagnitude mantissa exponent : Int) else roundMagnitude mantissa exponent) := by
      cases negative with
      | false => exact hround
      | true => exact hround.neg
    simp only [round?, value?, Option.some.injEq, exists_eq_left']
    constructor
    · rintro rfl
      exact hsigned
    · exact hsigned.unique

/-! ## Units of a power of two -/

/-- `x` is `k` units of `2 ^ e` once it is rounded to 53 bits. -/
structure RoundsIn (x : ℚ) (e k : Int) : Prop where
  fits : x < 2 ^ (53 + e)
  least : minExponent ≤ e
  filled : minExponent < e → 2 ^ (52 + e) ≤ x
  nearest : NearestEven (x / 2 ^ e) k

namespace RoundsIn

theorem zpow_le (h : e ≤ f) : (2 : ℚ) ^ e ≤ 2 ^ f := zpow_le_zpow_right₀ one_le_two h

theorem zpow_mul (n : Nat) (e : Int) : (2 : ℚ) ^ (n + e) = 2 ^ n * 2 ^ e := by
  rw [zpow_add₀ two_ne_zero, zpow_natCast]

/-- Rounding makes no more than 53 bits and the next unit. -/
theorem le_full (h : RoundsIn x e k) : (k : ℚ) * 2 ^ e ≤ 2 ^ (53 + e) := by
  have hunit : (0 : ℚ) < 2 ^ e := zpow_pos two_pos e
  have hle : x / 2 ^ e ≤ ((2 ^ 53 : Int) : ℚ) := by
    rw [div_le_iff₀ hunit, Int.cast_pow, Int.cast_ofNat]
    exact (h.fits.trans_eq (zpow_mul 53 e)).le
  have hk : (k : ℚ) ≤ ((2 ^ 53 : Int) : ℚ) := Int.cast_le.mpr (h.nearest.mono (.intCast _) hle)
  rw [Int.cast_pow, Int.cast_ofNat] at hk
  exact (mul_le_mul_of_nonneg_right hk hunit.le).trans_eq (zpow_mul 53 e).symm

/-- A number with 53 bits is not rounded to fewer. -/
theorem filled_le (h : RoundsIn x e k) (he : minExponent < e) : (2 : ℚ) ^ (52 + e) ≤ k * 2 ^ e := by
  have hunit : (0 : ℚ) < 2 ^ e := zpow_pos two_pos e
  have hle : ((2 ^ 52 : Int) : ℚ) ≤ x / 2 ^ e := by
    rw [le_div_iff₀ hunit, Int.cast_pow, Int.cast_ofNat]
    exact (zpow_mul 52 e).symm.trans_le (h.filled he)
  have hk : ((2 ^ 52 : Int) : ℚ) ≤ k := Int.cast_le.mpr (NearestEven.mono (.intCast _) h.nearest hle)
  rw [Int.cast_pow, Int.cast_ofNat] at hk
  exact (zpow_mul 52 e).trans_le (mul_le_mul_of_nonneg_right hk hunit.le)

/-- Rounding to 53 bits keeps the order. -/
theorem mono (hx : RoundsIn x e k) (hy : RoundsIn y f l) (h : x ≤ y) : (k : ℚ) * 2 ^ e ≤ l * 2 ^ f := by
  rcases lt_trichotomy e f with hlt | rfl | hgt
  · calc (k : ℚ) * 2 ^ e ≤ 2 ^ (53 + e) := hx.le_full
      _ ≤ 2 ^ (52 + f) := zpow_le (by omega)
      _ ≤ l * 2 ^ f := hy.filled_le (hx.least.trans_lt hlt)
  · have hunit : (0 : ℚ) < 2 ^ e := zpow_pos two_pos e
    have hkl : (k : ℚ) ≤ l := by
      exact_mod_cast hx.nearest.mono hy.nearest ((div_le_div_iff_of_pos_right hunit).mpr h)
    exact mul_le_mul_of_nonneg_right hkl hunit.le
  · -- A number with 53 bits in the larger units is above all that have no more in the smaller ones.
    have hfilled := hx.filled (hy.least.trans_lt hgt)
    have habove : y < x :=
      calc y < 2 ^ (53 + f) := hy.fits
        _ ≤ 2 ^ (52 + e) := zpow_le (by omega)
        _ ≤ x := hfilled
    exact absurd habove h.not_gt

theorem nonneg (h : RoundsIn x e k) (hx : 0 ≤ x) : (0 : ℚ) ≤ k * 2 ^ e := by
  have hunit : (0 : ℚ) < 2 ^ e := zpow_pos two_pos e
  have hzero : NearestEven 0 0 := by exact_mod_cast NearestEven.intCast 0
  have hk : (0 : ℚ) ≤ k := Int.cast_nonneg (hzero.mono h.nearest (div_nonneg hx hunit.le))
  exact mul_nonneg hk hunit.le

/-- What has no more than 53 bits in units that are not too small is kept. -/
theorem eq_of_units {m : Nat} (h : RoundsIn x e k) (hm : m < 2 ^ 53) (hf : minExponent ≤ f) (hx : x = m * 2 ^ f) :
    (k : ℚ) * 2 ^ e = x := by
  have hunit : (0 : ℚ) < 2 ^ e := zpow_pos two_pos e
  have hsmall : x < 2 ^ (53 + f) := by
    rw [hx, show (53 : Int) = (53 : Nat) from rfl, zpow_mul]
    exact mul_lt_mul_of_pos_right (by exact_mod_cast hm) (zpow_pos two_pos f)
  have hef : e ≤ f := by
    by_contra hlt
    have hfilled := (h.filled (hf.trans_lt (not_le.mp hlt))).trans_lt hsmall
    have := (zpow_lt_zpow_iff_right₀ (one_lt_two (α := ℚ))).mp hfilled
    omega
  have hwhole : x / 2 ^ e = ((m * 2 ^ (f - e).toNat : Nat) : Int) := by
    rw [div_eq_iff hunit.ne', hx]
    push_cast
    rw [zpow_toNat_of_nonneg (by omega), mul_assoc, ← zpow_add₀ two_ne_zero, sub_add_cancel]
  have hk : k = (m * 2 ^ (f - e).toNat : Nat) := h.nearest.unique (hwhole ▸ NearestEven.intCast _)
  rw [hk, ← hwhole, div_mul_cancel₀ x hunit.ne']

end RoundsIn

/-! ## Quotients -/

theorem scaled_snd_pos (num : Nat) (hden : 0 < den) (e : Int) : 0 < (scaled num den e).2 := by
  rw [scaled]
  split
  · exact Nat.mul_pos hden (pow2_pos _)
  · exact hden

/-- The quotient in units of `2 ^ e`. -/
theorem div_scaled (num : Nat) (hden : 0 < den) (e : Int) :
    ((scaled num den e).1 : ℚ) / (scaled num den e).2 = num / den / 2 ^ e := by
  have hpos : (den : ℚ) ≠ 0 := by exact_mod_cast hden.ne'
  rw [scaled]
  split
  · next h =>
    push_cast
    rw [cast_pow2, zpow_toNat_of_nonneg h, div_div]
  · next h =>
    push_cast
    rw [cast_pow2, zpow_toNat_of_nonneg (by omega), zpow_neg]
    field_simp

theorem lt_zpow_log2 (hnum : num ≠ 0) : (2 : ℚ) ^ (num.log2 : Int) ≤ num ∧ (num : ℚ) < 2 ^ (num.log2 + 1 : Int) := by
  constructor
  · rw [zpow_natCast]
    exact_mod_cast Nat.log2_self_le hnum
  · have hlt : num < 2 ^ (num.log2 + 1) := Nat.lt_log2_self
    exact_mod_cast hlt

/-- The bits of the parts of a quotient tell its own up to one. -/
theorem quotient_log2 (hnum : num ≠ 0) (hden : 0 < den) {guess : Int}
    (hguess : guess = num.log2 - den.log2 - 52) :
    (2 : ℚ) ^ (51 + guess) ≤ num / den ∧ (num : ℚ) / den < 2 ^ (53 + guess) := by
  have hpos : (0 : ℚ) < den := by exact_mod_cast hden
  obtain ⟨hnlow, hnhigh⟩ := lt_zpow_log2 hnum
  obtain ⟨hdlow, hdhigh⟩ := lt_zpow_log2 hden.ne'
  constructor
  · rw [le_div_iff₀ hpos]
    calc (2 : ℚ) ^ (51 + guess) * den ≤ 2 ^ (51 + guess) * 2 ^ (den.log2 + 1 : Int) :=
          mul_le_mul_of_nonneg_left hdhigh.le (zpow_pos two_pos _).le
      _ = 2 ^ (num.log2 : Int) := by
        rw [← zpow_add₀ two_ne_zero]
        congr 1
        omega
      _ ≤ num := hnlow
  · rw [div_lt_iff₀ hpos]
    calc (num : ℚ) < 2 ^ (num.log2 + 1 : Int) := hnhigh
      _ = 2 ^ (53 + guess) * 2 ^ (den.log2 : Int) := by
        rw [← zpow_add₀ two_ne_zero]
        congr 1
        omega
      _ ≤ 2 ^ (53 + guess) * den := mul_le_mul_of_nonneg_left hdlow (zpow_pos two_pos _).le

/-- In units of `2 ^ e` a quotient has less than 53 bits if it is less than `2 ^ 52` of them. -/
theorem scaled_lt_iff (num : Nat) (hden : 0 < den) (e : Int) :
    (scaled num den e).1 < (scaled num den e).2 * pow2 52 ↔ (num : ℚ) / den < 2 ^ (52 + e) := by
  have hunits := div_scaled num hden e
  have hscaled : (0 : ℚ) < (scaled num den e).2 := by exact_mod_cast scaled_snd_pos num hden e
  rw [div_eq_div_iff hscaled.ne' (zpow_pos two_pos e).ne'] at hunits
  rw [← Nat.cast_lt (α := ℚ)]
  push_cast
  rw [cast_pow2, show (52 : Int) = (52 : Nat) from rfl, RoundsIn.zpow_mul,
    ← mul_lt_mul_iff_left₀ (zpow_pos two_pos e), hunits, mul_comm, mul_assoc, mul_lt_mul_iff_right₀ hscaled]

/-- The units of a quotient are those in which it has 53 bits. -/
theorem unitExponent_spec (hnum : num ≠ 0) (hden : 0 < den) :
    (num : ℚ) / den < 2 ^ (53 + unitExponent num den) ∧
      (minExponent < unitExponent num den → (2 : ℚ) ^ (52 + unitExponent num den) ≤ num / den) := by
  set guess : Int := num.log2 - den.log2 - 52 with hguess
  obtain ⟨hlow, hhigh⟩ := quotient_log2 hnum hden hguess
  have hunit : unitExponent num den =
      max minExponent (if (scaled num den guess).1 < (scaled num den guess).2 * pow2 52 then guess - 1 else guess) :=
    rfl
  rw [hunit]
  -- The guess is right or one too large, and the comparison says which.
  split
  · next hless =>
    rw [scaled_lt_iff num hden] at hless
    refine ⟨hless.trans_le (RoundsIn.zpow_le (by omega)), fun hmin => ?_⟩
    rw [max_eq_right (by omega)]
    exact (RoundsIn.zpow_le (by omega)).trans hlow
  · next hless =>
    rw [scaled_lt_iff num hden, not_lt] at hless
    refine ⟨hhigh.trans_le (RoundsIn.zpow_le (by omega)), fun hmin => ?_⟩
    rwa [max_eq_right (by omega)]

/-- The value of the parts of a number, unless they are too large for the format. -/
theorem value?_ofParts (negative : Bool) (mantissa : Nat) (e : Int) :
    (ofParts negative mantissa e).value? =
      if mantissa = 2 ^ 53 ∧ 971 ≤ e ∨ 971 < e then none
      else some (if negative then -((mantissa : ℚ) * 2 ^ e) else mantissa * 2 ^ e) := by
  have hpow : pow2 53 = 2 ^ 53 := rfl
  rw [ofParts, hpow]
  by_cases hcarry : mantissa = 2 ^ 53
  · subst hcarry
    have hsame : ((pow2 52 : Nat) : ℚ) * 2 ^ (e + 1) = ((2 ^ 53 : Nat) : ℚ) * 2 ^ e := by
      rw [cast_pow2, zpow_add₀ two_ne_zero, zpow_one, Nat.cast_pow, Nat.cast_ofNat]
      ring
    rw [if_pos (beq_iff_eq.mpr rfl)]
    by_cases he : 971 ≤ e
    · rw [if_pos (by omega), if_pos (Or.inl ⟨rfl, he⟩)]
      rfl
    · rw [if_neg (by omega), if_neg (by omega), ← hsame]
      rfl
  · rw [if_neg fun hequal => hcarry (beq_iff_eq.mp hequal)]
    by_cases he : 971 < e
    · rw [if_pos he, if_pos (Or.inr he)]
      rfl
    · rw [if_neg he, if_neg (by omega)]
      rfl

/-- In units of `2 ^ 971` a number is rounded to the power of two that comes next from the middle on between it
and the largest finite number. -/
theorem RoundsIn.eq_full_iff (h : RoundsIn x 971 k) : k = 2 ^ 53 ↔ (2 ^ 54 - 1) * 2 ^ (970 : Int) ≤ x := by
  have hsplit : (2 : ℚ) ^ (971 : Int) = 2 * 2 ^ (970 : Int) := by
    rw [show (971 : Int) = (1 : Nat) + 970 from rfl, RoundsIn.zpow_mul, pow_one]
  have hmiddle : (2 ^ 54 - 1) * 2 ^ (970 : Int) ≤ x ↔
      ((2 ^ 53 - 1 : Int) + (2 ^ 53 : Int) : ℚ) / 2 ≤ x / 2 ^ (971 : Int) := by
    rw [le_div_iff₀ (zpow_pos two_pos _), hsplit]
    generalize (2 : ℚ) ^ (970 : Int) = unit
    push_cast
    ring_nf
  have hfull : k ≤ 2 ^ 53 := by
    have hk := h.le_full
    rw [show (53 : Int) = (53 : Nat) from rfl, RoundsIn.zpow_mul,
      mul_le_mul_iff_left₀ (zpow_pos two_pos _)] at hk
    exact_mod_cast hk
  rw [hmiddle]
  constructor
  · rintro rfl
    exact (NearestEven.near_iff_middle_le (by norm_num)).mp (h.nearest.near _)
  · intro hle
    have htie : NearestEven (((2 ^ 53 - 1 : Int) + (2 ^ 53 : Int) : ℚ) / 2) (2 ^ 53 : Int) := by
      refine .of_half ?_ fun _ => by decide
      push_cast
      norm_num
    exact le_antisymm hfull (htie.mono h.nearest hle)

/-- The parts are too large for the format exactly if the number that they were rounded from is no less than the
middle between the largest finite number and the power of two that would come next. -/
theorem RoundsIn.overflows_iff (h : RoundsIn x e k) :
    k = 2 ^ 53 ∧ 971 ≤ e ∨ 971 < e ↔ (2 ^ 54 - 1) * 2 ^ (970 : Int) ≤ x := by
  have hunit : (0 : ℚ) < 2 ^ (970 : Int) := zpow_pos two_pos _
  have hmin : minExponent = -1074 := rfl
  rcases lt_trichotomy e 971 with hless | rfl | hmore
  · have hbelow : x < 2 ^ 53 * 2 ^ (970 : Int) :=
      h.fits.trans_le ((RoundsIn.zpow_le (by omega)).trans_eq (RoundsIn.zpow_mul 53 970))
    have hroom := mul_lt_mul_of_pos_right (show (2 : ℚ) ^ 53 < 2 ^ 54 - 1 by norm_num) hunit
    exact iff_of_false (by omega) (hbelow.trans hroom).not_ge
  · rw [← h.eq_full_iff]
    omega
  · have hfilled := h.filled (by omega)
    have habove : (2 : ℚ) ^ 54 * 2 ^ (970 : Int) ≤ x :=
      (RoundsIn.zpow_mul 54 970).symm.trans_le ((RoundsIn.zpow_le (by omega)).trans hfilled)
    have hover := mul_le_mul_of_nonneg_right (sub_le_self ((2 : ℚ) ^ 54) zero_le_one) hunit.le
    exact iff_of_true (Or.inr hmore) (hover.trans habove)

/-- A quotient is rounded to 53 bits, with the sign given, unless it overflows. -/
theorem exists_roundsIn (negative : Bool) (num : Nat) (hden : 0 < den) :
    ∃ (e : Int) (m : Nat), RoundsIn (num / den) e m ∧
      (ofRatio negative num den).value? = (ofParts negative m e).value? := by
  rw [ofRatio]
  split
  · next hzero =>
    rw [beq_iff_eq] at hzero
    refine ⟨minExponent, 0, ⟨?_, le_rfl, fun hlt => absurd hlt (lt_irrefl _), ?_⟩, ?_⟩
    · rw [hzero, Nat.cast_zero, zero_div]
      exact zpow_pos two_pos _
    · rw [hzero, Nat.cast_zero, zero_div, zero_div]
      exact_mod_cast NearestEven.intCast 0
    · rw [value?_ofParts, if_neg (by decide)]
      simp only [value?, Nat.cast_zero, zero_mul]
  · next hzero =>
    obtain ⟨hfits, hfilled⟩ := unitExponent_spec (beq_eq_false_iff_ne.mp (Bool.eq_false_iff.mpr hzero)) hden
    have hnearest := nearestEven_divEven (scaled num den (unitExponent num den)).1
      (scaled_snd_pos num hden (unitExponent num den))
    rw [div_scaled num hden] at hnearest
    exact ⟨_, _, ⟨hfits, le_max_left _ _, hfilled, hnearest⟩, rfl⟩

/-- A quotient overflows exactly from the middle on between the largest finite number and the next power of two. -/
theorem value?_ofRatio_eq_none_iff (negative : Bool) (num : Nat) (hden : 0 < den) :
    (ofRatio negative num den).value? = none ↔ (2 ^ 54 - 1) * 2 ^ (970 : Int) ≤ (num : ℚ) / den := by
  obtain ⟨e, m, hrounds, heq⟩ := exists_roundsIn negative num hden
  rw [heq, value?_ofParts, ← hrounds.overflows_iff]
  norm_cast
  split
  · next hlarge => exact iff_of_true rfl hlarge
  · next hlarge => exact iff_of_false (by simp) hlarge

/-- What a quotient becomes is some units of 53 bits, with the sign given. -/
theorem exists_roundsIn_of_value? (hden : 0 < den) (h : (ofRatio negative num den).value? = some v) :
    ∃ e k : Int, RoundsIn (num / den) e k ∧ v = if negative then -((k : ℚ) * 2 ^ e) else k * 2 ^ e := by
  obtain ⟨e, m, hrounds, heq⟩ := exists_roundsIn negative num hden
  rw [heq, value?_ofParts] at h
  split at h
  · cases h
  · exact ⟨e, m, hrounds, (Option.some.inj h).symm⟩

/-- A quotient of integers that is no less than another is rounded to no less. -/
theorem value?_ofRatio_mono {a b : Int} (hden : 0 < den) (h : a ≤ b)
    (ha : (ofRatio (a < 0) a.natAbs den).value? = some v)
    (hb : (ofRatio (b < 0) b.natAbs den).value? = some w) : v ≤ w := by
  obtain ⟨e, k, hk, rfl⟩ := exists_roundsIn_of_value? hden ha
  obtain ⟨f, l, hl, rfl⟩ := exists_roundsIn_of_value? hden hb
  have hle : ∀ {m n : Nat}, m ≤ n → (m : ℚ) / den ≤ n / den := fun hmn =>
    div_le_div_of_nonneg_right (Nat.cast_le.mpr hmn) den.cast_nonneg
  by_cases hneg : a < 0
  · by_cases hneg' : b < 0
    · simp only [hneg, hneg', decide_true, if_true]
      exact neg_le_neg (hl.mono hk (hle (by omega)))
    · simp only [hneg, hneg', decide_true, decide_false, if_true, Bool.false_eq_true, if_false]
      exact (neg_nonpos.mpr (hk.nonneg (by positivity))).trans (hl.nonneg (by positivity))
  · have hneg' : ¬b < 0 := by omega
    simp only [hneg, hneg', decide_false, Bool.false_eq_true, if_false]
    exact hk.mono hl (hle (by omega))

/-- The size of an integer over a divisor, with the sign of the integer. -/
theorem signed_natAbs_div (a : Int) (d : ℚ) :
    (if decide (a < 0) = true then -((a.natAbs : ℚ) / d) else a.natAbs / d) = a / d := by
  by_cases hneg : a < 0
  · rw [decide_eq_true hneg, if_pos rfl, ← neg_div, Nat.cast_natAbs, abs_of_neg hneg]
    push_cast
    rw [neg_neg]
  · rw [decide_eq_false hneg, if_neg (by decide), Nat.cast_natAbs, abs_of_nonneg (by omega)]

/-- An integer of up to 53 bits over a power of two is a number of the format. -/
theorem value?_ofRatio_eq_self {a : Int} {j : Nat} (ha : |a| ≤ 2 ^ 53) (hj : j ≤ 1022) :
    (ofRatio (a < 0) a.natAbs (2 ^ j)).value? = some ((a : ℚ) / 2 ^ j) := by
  have hden : 0 < 2 ^ j := Nat.two_pow_pos j
  have habs : a.natAbs ≤ 2 ^ 53 := by
    rw [Int.abs_eq_natAbs] at ha
    exact_mod_cast ha
  have hsize : (a.natAbs : ℚ) / (2 ^ j : Nat) ≤ 2 ^ 53 := by
    rw [div_le_iff₀ (by exact_mod_cast hden)]
    exact_mod_cast habs.trans (Nat.le_mul_of_pos_right _ hden)
  cases hvalue : (ofRatio (a < 0) a.natAbs (2 ^ j)).value? with
  | none =>
    have hlarge := ((value?_ofRatio_eq_none_iff _ _ hden).mp hvalue).trans hsize
    have hone : (1 : ℚ) ≤ 2 ^ (970 : Int) := one_le_zpow₀ one_le_two (by decide)
    have hgrow := le_mul_of_one_le_right (show (0 : ℚ) ≤ 2 ^ 54 - 1 by norm_num) hone
    exact absurd (hgrow.trans hlarge) (by norm_num)
  | some v =>
    obtain ⟨e, k, hrounds, rfl⟩ := exists_roundsIn_of_value? hden hvalue
    have hkept : (k : ℚ) * 2 ^ e = (a.natAbs : ℚ) / (2 ^ j : Nat) := by
      have hunits : (a.natAbs : ℚ) / (2 ^ j : Nat) = a.natAbs * 2 ^ (-j : Int) := by
        rw [Nat.cast_pow, Nat.cast_ofNat, zpow_neg, zpow_natCast, div_eq_mul_inv]
      rcases Nat.lt_or_ge a.natAbs (2 ^ 53) with hless | hmore
      · exact hrounds.eq_of_units hless (by rw [minExponent]; omega) hunits
      · refine hrounds.eq_of_units (m := 1) (f := 53 + -j) (by decide) (by rw [minExponent]; omega) ?_
        rw [hunits, show a.natAbs = 2 ^ 53 by omega, show (53 : Int) = (53 : Nat) from rfl, RoundsIn.zpow_mul]
        push_cast
        ring
    rw [hkept, Nat.cast_pow, Nat.cast_ofNat, signed_natAbs_div]

end SourceScan.Binary64
