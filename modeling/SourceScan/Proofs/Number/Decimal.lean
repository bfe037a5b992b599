import SourceScan.Number.IntegerText

/-!
# Integers in decimal

The decimal digits of a number write it (`value_toDigits`). The text of an integer is the digits of its size, with a
minus before them if it is negative (`toList_toString`), and no digit is a minus. So integers are told apart by their
texts (`toString_injective`), and with them the messages and reports that a number stands in.
-/

namespace SourceScan.IntegerText

variable {m n : Int}

/-- The decimal digits of a number write it. -/
theorem value_toDigits (n : Nat) : value (Nat.toDigits 10 n) = n := by
  have hvalue : ∀ digits : List Char, value digits = Nat.ofDigitChars 10 digits 0 := by
    intro digits
    unfold value Nat.ofDigitChars
    congr 1
    funext n c
    rw [Nat.mul_comm]
    rfl
  rw [hvalue, Nat.ofDigitChars_ten_toDigits]

theorem toList_toString (n : Int) : (toString n).toList =
    if 0 ≤ n then Nat.toDigits 10 n.toNat else '-' :: Nat.toDigits 10 (-n).toNat := by
  rw [Int.toString_eq_repr, Int.repr_eq_if]
  split
  · exact Nat.toList_repr
  · rw [String.toList_append, Nat.toList_repr]
    rfl

theorem minus_not_mem_toDigits (n : Nat) : '-' ∉ Nat.toDigits 10 n := by
  intro hminus
  have hdigit := Nat.isDigit_of_mem_toDigits (by decide) (by decide) hminus
  cases hdigit

/-- Integers are told apart by their texts. -/
theorem toString_injective (h : toString m = toString n) : m = n := by
  have hdigits : ∀ {a b : Nat}, Nat.toDigits 10 a = Nat.toDigits 10 b → a = b := by
    intro a b heq
    rw [← value_toDigits a, heq, value_toDigits]
  have hchars := congrArg String.toList h
  rw [toList_toString, toList_toString] at hchars
  split at hchars
  · split at hchars
    · have := hdigits hchars
      omega
    · exact absurd (hchars ▸ List.mem_cons_self) (minus_not_mem_toDigits _)
  · split at hchars
    · exact absurd (hchars ▸ List.mem_cons_self) (minus_not_mem_toDigits _)
    · have := hdigits (List.cons.inj hchars).2
      omega

end SourceScan.IntegerText
