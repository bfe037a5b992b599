import SourceScan.Text.CharClass
import SourceScan.Text.Lower

/-!
# The case of ASCII letters

`Char.toLower` writes an ASCII letter small and leaves every other character as it is. What is asked of the
characters of a text is mostly the same of a capital letter and a small one, and that need only be tried out on
the 26 capitals (`eq_toLower_of_capitals`). So the lower-case form of a text is the same for all ways to write the
ASCII letters in it (`lowerChars_map_toLower`), also where a sigma looks at the letters around it.
-/

namespace SourceScan.Text

variable {cs before after : List Char} {c : Char}

/-- The capital letters of ASCII. -/
def capitals : List Char := "ABCDEFGHIJKLMNOPQRSTUVWXYZ".toList

theorem mem_capitals_of_isUpper (h : c.isUpper = true) : c ∈ capitals := by
  have hall : ∀ n : Fin 26, Char.ofNat (65 + n) ∈ capitals := by decide
  obtain ⟨hlow, hhigh⟩ : 65 ≤ c.toNat ∧ c.toNat ≤ 90 := of_decide_eq_true h
  have hc := hall ⟨c.toNat - 65, by omega⟩
  rw [Nat.add_sub_cancel' hlow, Char.ofNat_toNat] at hc
  exact hc

/-- What is the same of each capital letter and its small one is the same of every character and its small one. -/
theorem eq_toLower_of_capitals {α : Type} (f : Char → α) (h : (capitals.map fun c => f c.toLower) = capitals.map f)
    (c : Char) : f c.toLower = f c := by
  by_cases hc : c.isUpper = true
  · exact List.map_inj_left.mp h c (mem_capitals_of_isUpper hc)
  · have hsame : c.toLower = c := dif_neg fun hcapital => hc (decide_eq_true hcapital)
    rw [hsame]

theorem isBlank_toLower (c : Char) : isBlank c.toLower = isBlank c := eq_toLower_of_capitals isBlank (by decide) c

theorem lowerChar_toLower (c : Char) : lowerChar c.toLower = lowerChar c :=
  eq_toLower_of_capitals lowerChar (by decide) c

theorem ignorable_toLower (c : Char) : ignorableTable.contains c.toLower.toNat = ignorableTable.contains c.toNat :=
  eq_toLower_of_capitals (fun c => ignorableTable.contains c.toNat) (by decide +kernel) c

theorem cased_toLower (c : Char) : casedTable.contains c.toLower.toNat = casedTable.contains c.toNat :=
  eq_toLower_of_capitals (fun c => casedTable.contains c.toNat) (by decide +kernel) c

/-- What a text begins with once the characters that the test passes are dropped, in another case of its letters. -/
theorem dropWhile_map_toLower {p : Char → Bool} (hp : ∀ c, p c.toLower = p c) (cs : List Char) :
    (cs.map Char.toLower).dropWhile p = (cs.dropWhile p).map Char.toLower := by
  rw [List.dropWhile_map, show p ∘ Char.toLower = p from funext hp]

theorem takeWhile_map_toLower {p : Char → Bool} (hp : ∀ c, p c.toLower = p c) (cs : List Char) :
    (cs.map Char.toLower).takeWhile p = (cs.takeWhile p).map Char.toLower := by
  rw [List.takeWhile_map, show p ∘ Char.toLower = p from funext hp]

theorem startsCased_map_toLower (cs : List Char) : startsCased (cs.map Char.toLower) = startsCased cs := by
  unfold startsCased
  rw [dropWhile_map_toLower (p := fun c => ignorableTable.contains c.toNat) ignorable_toLower]
  cases cs.dropWhile fun c => ignorableTable.contains c.toNat with
  | nil => rfl
  | cons c rest => exact cased_toLower c

/-- One character has the same lower-case form whatever the case of the ASCII letters about it. -/
theorem lowerAt_map_toLower (before : List Char) (c : Char) (after : List Char) :
    lowerAt (before.map Char.toLower) c.toLower (after.map Char.toLower) = lowerAt before c after := by
  have hdotted := eq_toLower_of_capitals (· == '\u0130') (by decide) c
  have hsigma := eq_toLower_of_capitals (· == '\u03A3') (by decide) c
  rw [lowerAt, lowerAt, hdotted, hsigma, startsCased_map_toLower, startsCased_map_toLower, lowerChar_toLower]

theorem lowerGo_map_toLower (before cs done : List Char) :
    lowerGo (before.map Char.toLower) (cs.map Char.toLower) done = lowerGo before cs done := by
  induction cs generalizing before done with
  | nil => rfl
  | cons c after ih =>
    rw [List.map_cons, lowerGo, lowerGo, lowerAt_map_toLower, ← List.map_cons, ih]

/-- A text has the same lower-case form whatever the case of its ASCII letters. -/
theorem lowerChars_map_toLower (cs : List Char) : lowerChars (cs.map Char.toLower) = lowerChars cs :=
  lowerGo_map_toLower [] cs []

end SourceScan.Text
