import SourceScan.Number.Binary64

/-!
# Quotients that do not overflow

A quotient of natural numbers overflows the 64-bit format only if its numerator is longer by hundreds of
digits in base two. `exists_ofRatio` says so with room to spare: 1022 digits more are no overflow.
-/

namespace SourceScan.Binary64

/-- The units of a quotient are no larger than the lengths of its two parts make them. -/
theorem unitExponent_le (num den : Nat) :
    unitExponent num den ≤ max minExponent ((num.log2 : Int) - den.log2 - 52) := by
  simp only [unitExponent]
  split <;> omega

/-- Units of up to `2 ^ 970` leave room for the bit that rounding may add. -/
theorem exists_ofParts (negative : Bool) (mantissa : Nat) {exponent : Int} (h : exponent ≤ 970) :
    ∃ m e, ofParts negative mantissa exponent = finite negative m e := by
  rw [ofParts]
  split
  · rw [if_neg (by omega)]
    exact ⟨_, _, rfl⟩
  · rw [if_neg (by omega)]
    exact ⟨_, _, rfl⟩

/-- A quotient whose numerator has at most 1022 more digits in base two is rounded to a number. -/
theorem exists_ofRatio (negative : Bool) (num den : Nat) (h : (num.log2 : Int) ≤ den.log2 + 1022) :
    ∃ m e, ofRatio negative num den = finite negative m e := by
  have hunit := unitExponent_le num den
  have hmin : minExponent = -1074 := rfl
  rw [ofRatio]
  split
  · exact ⟨0, 0, rfl⟩
  · exact exists_ofParts negative _ (by omega)

end SourceScan.Binary64
