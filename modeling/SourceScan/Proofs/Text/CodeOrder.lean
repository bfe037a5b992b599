import SourceScan.Text.CodeString

/-!
# The order of names

`CodeString.le` is the order of the strings' codes, compared from the left (`le_iff_codes`). Half a surrogate pair
has no number that a character has, so strings are told apart by their codes (`codes_injective`), and the order
leaves no two names of files level.
-/

namespace SourceScan

namespace CodePoint

/-- A character has no number of half a surrogate pair. -/
theorem toNat_ne_surrogate (c : Char) (half : Surrogate) : c.toNat ≠ half.code := by
  intro heq
  have hc : c.toNat < 0xD800 ∨ 0xDFFF < c.toNat := c.valid.imp_right And.left
  have hfirst := half.first_le
  have hlast := half.le_last
  omega

/-- Code points are told apart by their codes. -/
theorem code_injective {p q : CodePoint} (h : p.code = q.code) : p = q := by
  cases p with
  | scalar c =>
    cases q with
    | scalar d => rw [Char.toNat_inj.mp h]
    | lone half => exact absurd h (toNat_ne_surrogate c half)
  | lone half =>
    cases q with
    | scalar d => exact absurd h.symm (toNat_ne_surrogate d half)
    | lone other =>
      cases half
      cases other
      cases h
      rfl

end CodePoint

namespace CodeString

/-- The codes of a string, on which its place in the order depends. -/
def codes (s : CodeString) : List Nat := s.map CodePoint.code

/-- A string is no later than another if its codes are not after the other's. -/
theorem le_iff_codes (a b : CodeString) : a.le b = true ↔ ¬ b.codes < a.codes := by
  induction a generalizing b with
  | nil => simp only [le, codes, List.map_nil, List.not_lt_nil, not_false_eq_true]
  | cons p rest ih =>
    cases b with
    | nil => simp only [le, codes, List.map_cons, List.map_nil, List.nil_lt_cons, Bool.false_eq_true,
        not_true_eq_false]
    | cons q others =>
      have hrest := ih others
      simp only [codes] at hrest
      simp only [le, codes, List.map_cons, List.cons_lt_cons_iff, Bool.or_eq_true, Bool.and_eq_true,
        decide_eq_true_eq, beq_iff_eq, hrest]
      by_cases hlast : List.map CodePoint.code others < List.map CodePoint.code rest
      · simp only [hlast, not_true_eq_false, and_false, or_false, and_true]
        omega
      · simp only [hlast, not_false_eq_true, and_false, or_false, and_true]
        omega

theorem le_trans (a b c : CodeString) (hab : a.le b = true) (hbc : b.le c = true) :
    a.le c = true := by
  rw [le_iff_codes] at *
  exact List.le_trans hab hbc

theorem le_total (a b : CodeString) : (a.le b || b.le a) = true := by
  rw [Bool.or_eq_true, le_iff_codes, le_iff_codes]
  by_cases h : b.codes < a.codes
  · exact Or.inr (List.lt_asymm h)
  · exact Or.inl h

/-- Strings are told apart by their codes. -/
theorem codes_injective {a b : CodeString} (h : a.codes = b.codes) : a = b :=
  (List.map_inj_right fun _ _ => CodePoint.code_injective).mp h

/-- Of two different strings the one that is not after the other comes before it. -/
theorem codes_lt_of_le {a b : CodeString} (hle : a.le b = true) (hne : a ≠ b) : a.codes < b.codes := by
  have hcodes := (le_iff_codes a b).mp hle
  apply Classical.byContradiction
  intro hlt
  exact hne (codes_injective (List.le_antisymm hcodes hlt))

end CodeString

end SourceScan
