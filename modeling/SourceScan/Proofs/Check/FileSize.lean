import SourceScan.Check.File
import SourceScan.Proofs.Number.Decimal
import SourceScan.Proofs.Number.Rounding

/-!
# The size that a file is reported with

The check of the size of a file writes the size in units of 1024 bytes. The quotient is rounded twice, to the 64-bit
format and then to an integer, and each step keeps the order (`fileSize_rounds`): of two sizes the larger one is
never reported with the smaller number. Up to 53 bits the first step changes nothing, so the number is the integer
nearest to the exact quotient. Sizes are integers here, of any length and either sign; the check has an answer
for all but those whose quotient is too large for the format.
-/

namespace SourceScan.FileCheck

variable {config : Config} {file : CodeString} {size a b n m : Int}

/-- The check of a size has one finding, which says that it is `n` units of 1024 bytes. -/
def Reports (config : Config) (file : CodeString) (size n : Int) : Prop :=
  ∃ i, fileSize config file size = .ok [i] ∧ i.message = "Large file size: " ++ toString n ++ "KB"

theorem message_injective
    (h : "Large file size: " ++ toString n ++ "KB" = "Large file size: " ++ toString m ++ "KB") : n = m := by
  rw [String.append_left_inj, String.append_right_inj] at h
  exact IntegerText.toString_injective h

/-- A size is reported if it exceeds the threshold and its quotient can be rounded, and with that number. -/
theorem reports_iff : Reports config file size n ↔ config.largeFileBytes < size ∧ kibibytes? size = some n := by
  rw [Reports, fileSize]
  by_cases hlarge : size ≤ config.largeFileBytes
  · rw [if_pos hlarge]
    constructor
    · intro ⟨i, h, _⟩
      cases h
    · intro h
      exact absurd hlarge h.1.not_ge
  · rw [if_neg hlarge]
    cases hsize : kibibytes? size with
    | none =>
      constructor
      · intro ⟨i, h, _⟩
        cases h
      · intro h
        cases h.2
    | some k =>
      constructor
      · intro ⟨i, h, hmessage⟩
        cases h
        exact ⟨not_le.mp hlarge, congrArg some (message_injective hmessage)⟩
      · intro ⟨_, h⟩
        cases h
        exact ⟨_, rfl, rfl⟩

/-- The number of a size is the integer nearest to its quotient in the 64-bit format. -/
theorem kibibytes?_eq_some :
    kibibytes? size = some n ↔
      ∃ v, (Binary64.ofRatio (size < 0) size.natAbs (2 ^ 10)).value? = some v ∧ NearestEven v n :=
  Binary64.round?_eq_some

/-- A size has no number exactly if it is as large as the middle between the largest finite number of the format
and the next power of two, in units of 1024 bytes. -/
theorem kibibytes?_eq_none_iff : kibibytes? size = none ↔ (2 ^ 54 - 1) * 2 ^ 980 ≤ |size| := by
  have hround : kibibytes? size = none ↔
      (Binary64.ofRatio (size < 0) size.natAbs (2 ^ 10)).value? = none := by
    rw [kibibytes?, show 1024 = 2 ^ 10 from rfl]
    cases Binary64.ofRatio (size < 0) size.natAbs (2 ^ 10) <;> simp [Binary64.round?, Binary64.value?]
  have hunits : (2 : ℚ) ^ (970 : Int) * (2 ^ 10 : Nat) = 2 ^ 980 := by
    rw [Nat.cast_pow, Nat.cast_ofNat, show (970 : Int) = (970 : Nat) from rfl, zpow_natCast, ← pow_add]
  have hcast : (((2 ^ 54 - 1) * 2 ^ 980 : Int) : ℚ) = (2 ^ 54 - 1) * 2 ^ 980 := by
    rw [Int.cast_mul, Int.cast_pow 2 980, Int.cast_sub, Int.cast_pow, Int.cast_ofNat, Int.cast_one]
  rw [hround, Binary64.value?_ofRatio_eq_none_iff _ _ (by decide), le_div_iff₀ (by norm_num), mul_assoc, hunits,
    Nat.cast_natAbs, ← hcast, Int.cast_le]

/-- Sizes of up to 54 bits but one are far from the limit. -/
theorem le_limit : (2 ^ 54 - 1 : Int) ≤ (2 ^ 54 - 1) * 2 ^ 980 :=
  le_mul_of_one_le_right (by decide) (one_le_pow₀ (by decide))

/-- **How a size is reported.** For every configuration and every size above its threshold. A size of up to 53 bits
is reported with the integer nearest to the exact quotient, the even one of two. A size of any length is reported
with one number if its quotient does not overflow the format, and is an error if it does. And of two sizes that are
reported the larger one is not reported with the smaller number. -/
theorem fileSize_rounds (config : Config) (file : CodeString) :
    (∀ size : Int, config.largeFileBytes < size → |size| ≤ 2 ^ 53 →
      ∃ n, Reports config file size n ∧ NearestEven ((size : ℚ) / 1024) n) ∧
    (∀ size : Int, config.largeFileBytes < size →
      (|size| < (2 ^ 54 - 1) * 2 ^ 980 → ∃! n, Reports config file size n) ∧
        ((2 ^ 54 - 1) * 2 ^ 980 ≤ |size| → fileSize config file size = .error .sizeOverflow)) ∧
    ∀ a b n m : Int, a ≤ b → Reports config file a n → Reports config file b m → n ≤ m := by
  have hmono : ∀ a b n m : Int, a ≤ b → Reports config file a n → Reports config file b m → n ≤ m := by
    intro a b n m h ha hb
    obtain ⟨v, hv, hn⟩ := kibibytes?_eq_some.mp (reports_iff.mp ha).2
    obtain ⟨w, hw, hm⟩ := kibibytes?_eq_some.mp (reports_iff.mp hb).2
    exact hn.mono hm (Binary64.value?_ofRatio_mono (by decide) h hv hw)
  refine ⟨fun size hlarge hsize => ?_, fun size hlarge => ⟨fun hfits => ?_, fun hover => ?_⟩, hmono⟩
  · have hvalue := Binary64.value?_ofRatio_eq_self (j := 10) hsize (by decide)
    cases hnumber : kibibytes? size with
    | none =>
      have hover := (kibibytes?_eq_none_iff.mp hnumber).trans hsize
      exact absurd (le_limit.trans hover) (by decide)
    | some n =>
      obtain ⟨v, hv, hn⟩ := kibibytes?_eq_some.mp hnumber
      rw [hvalue] at hv
      cases hv
      exact ⟨n, reports_iff.mpr ⟨hlarge, hnumber⟩, by norm_num at hn; exact hn⟩
  · cases hnumber : kibibytes? size with
    | none => exact absurd (kibibytes?_eq_none_iff.mp hnumber) hfits.not_ge
    | some n =>
      have hreports : Reports config file size n := reports_iff.mpr ⟨hlarge, hnumber⟩
      exact ⟨n, hreports, fun m hm => le_antisymm (hmono _ _ _ _ le_rfl hm hreports)
        (hmono _ _ _ _ le_rfl hreports hm)⟩
  · rw [fileSize, if_neg hlarge.not_ge, kibibytes?_eq_none_iff.mpr hover]

/-- A threshold below zero, so that all larger sizes are reported. -/
def belowZero : Config := { largeFileBytes := -2048 }

/-- One and a half units below zero are reported as two, and a size of 54 bits as no less. -/
theorem fileSize_rounds_belowZero :
    belowZero.largeFileBytes < -1536 ∧ |(-1536 : Int)| ≤ 2 ^ 53 ∧ Reports belowZero "a.py" (-1536) (-2) ∧
      ∃ m, Reports belowZero "a.py" (2 ^ 53 + 1) m ∧ -2 ≤ m := by
  obtain ⟨hnear, hone, hmono⟩ := fileSize_rounds belowZero "a.py"
  have hlarge : belowZero.largeFileBytes < -1536 := by decide
  have hbits : |(-1536 : Int)| ≤ 2 ^ 53 := by decide
  obtain ⟨n, hn, hnearest⟩ := hnear (-1536) hlarge hbits
  have htwo : NearestEven (((-1536 : Int) : ℚ) / 1024) (-2) := by
    refine .of_half ?_ fun _ => by decide
    norm_num
  rw [hnearest.unique htwo] at hn
  obtain ⟨m, hm, _⟩ := (hone (2 ^ 53 + 1) (by decide)).1 (lt_of_lt_of_le (by decide) le_limit)
  exact ⟨hlarge, hbits, hn, m, hm, hmono _ _ _ _ (by decide) hn hm⟩

end SourceScan.FileCheck
