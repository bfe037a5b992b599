import SourceScan.Text.CodeString

/-!
# Strings that are texts

The string of a text gives the text back, and a string that has a text is the string of it. So texts are
told apart by their strings.
-/

namespace SourceScan.CodeString

variable {s : CodeString} {t u : String}

theorem filterMap_char?_ofChars (cs : List Char) : (ofChars cs).filterMap CodePoint.char? = cs := by
  induction cs with
  | nil => rfl
  | cons c cs ih => exact congrArg (c :: ·) ih

theorem toString?_eq_some : s.toString? = some t ↔ s = ofString t := by
  rw [toString?]
  constructor
  · intro h
    split at h
    · next hall =>
      cases h
      rw [ofString, String.toList_ofList]
      induction s with
      | nil => rfl
      | cons p s ih =>
        rw [List.all_cons, Bool.and_eq_true] at hall
        cases p with
        | scalar c => exact congrArg (CodePoint.scalar c :: ·) (ih hall.2)
        | lone n => exact absurd hall.1 Bool.false_ne_true
    · cases h
  · rintro rfl
    have hall : (ofString t).all CodePoint.isScalar = true := by
      simp [ofString, ofChars, CodePoint.isScalar]
    rw [if_pos hall, ofString, filterMap_char?_ofChars, String.ofList_toList]

/-- The string is that of a text: no code point in it is a lone half. -/
def IsText (s : CodeString) : Prop := ∃ t : String, s = ofString t

theorem exists_map_ofString {l : List CodeString} (h : ∀ s ∈ l, s.IsText) :
    ∃ texts : List String, l = texts.map ofString := by
  induction l with
  | nil => exact ⟨[], rfl⟩
  | cons s l ih =>
    obtain ⟨t, rfl⟩ := h s List.mem_cons_self
    obtain ⟨texts, rfl⟩ := ih fun s hs => h s (List.mem_cons_of_mem _ hs)
    exact ⟨t :: texts, rfl⟩

theorem ofString_injective (h : ofString t = ofString u) : t = u := by
  have ht := toString?_eq_some.mpr (Eq.refl (ofString t))
  rw [h] at ht
  exact (Option.some.inj ((toString?_eq_some.mpr (Eq.refl (ofString u))).symm.trans ht)).symm

theorem ofString_inj : ofString t = ofString u ↔ t = u := ⟨ofString_injective, congrArg ofString⟩

theorem ofString_append (t u : String) : ofString (t ++ u) = ofString t ++ ofString u := by
  simp only [ofString, ofChars, String.toList_append, List.map_append]

/-- The string of a text is seen as that text. -/
@[simp]
theorem shown_ofString (t : String) : (ofString t).shown = t.toList := by
  rw [shown, ofString, ofChars, List.map_map]
  exact List.map_id _

@[simp]
theorem shown_append (s t : CodeString) : shown (s ++ t) = s.shown ++ t.shown := List.map_append

end SourceScan.CodeString
