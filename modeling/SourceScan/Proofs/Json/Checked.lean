import SourceScan.Json.Checked
import SourceScan.Proofs.Text.CodeString

/-!
# When a check accepts

A check of a form accepts a value if its parts are accepted, each by its own check, and gives what they give
together (`Checked.map_eq_ok`, `Checked.seq_eq_ok`); a form of many parts is taken apart from the last one on
(`Checked.exists_seq_eq_ok`). A part that has to be there is accepted if it is there
and its check accepts it; one that may be left out is also accepted if it is not there
(`Json.required_eq_ok`, `Json.optional_eq_ok`). Where a problem is, and under which name, makes no difference.

A list is accepted if its items are, so what it gives is put together from accepted items
(`Json.exists_of_mem_checkList`); and a list of values that are written so that each of them is accepted is
accepted as a whole (`Json.checkList_map`), though the check need not accept what is written of other values.
-/

namespace SourceScan

variable {α β : Type} {a : α} {b : β}

namespace Checked

theorem map_eq_ok {f : α → β} {x : Checked α} : f <$> x = .ok b ↔ ∃ a, x = .ok a ∧ f a = b := by
  cases x with
  | ok a => simp [Functor.map, Checked.map]
  | bad ps => simp [Functor.map, Checked.map]

theorem seq_eq_ok {f : Checked (α → β)} {x : Checked α} :
    f <*> x = .ok b ↔ ∃ g a, f = .ok g ∧ x = .ok a ∧ g a = b := by
  cases f <;> cases x <;> simp [Seq.seq, Checked.both, Checked.map]

/-- A part that is read last gives its value to what the parts before it gave. -/
theorem exists_seq_eq_ok {f : Checked (α → β)} {x : Checked α} {p : β → Prop} :
    (∃ b, f <*> x = .ok b ∧ p b) ↔ ∃ a, x = .ok a ∧ ∃ g, f = .ok g ∧ p (g a) := by
  simp only [seq_eq_ok]
  constructor
  · rintro ⟨_, ⟨g, a, hg, ha, rfl⟩, hp⟩
    exact ⟨a, ha, g, hg, hp⟩
  · rintro ⟨a, ha, g, hg, hp⟩
    exact ⟨_, ⟨g, a, hg, ha, rfl⟩, hp⟩

theorem exists_map_eq_ok {f : α → β} {x : Checked α} {p : β → Prop} :
    (∃ b, f <$> x = .ok b ∧ p b) ↔ ∃ a, x = .ok a ∧ p (f a) := by
  simp only [map_eq_ok]
  constructor
  · rintro ⟨_, ⟨a, ha, rfl⟩, hp⟩
    exact ⟨a, ha, hp⟩
  · rintro ⟨a, ha, hp⟩
    exact ⟨_, ⟨a, ha, rfl⟩, hp⟩

theorem under_eq_ok {step : Step} {x : Checked α} : x.under step = .ok a ↔ x = .ok a := by
  cases x <;> simp [under]

theorem toExcept_eq_ok (form : String) {x : Checked α} : x.toExcept form = .ok a ↔ x = .ok a := by
  cases x <;> simp [toExcept]

end Checked

namespace Json

variable {ms : Members} {name : String} {default : α} {check : Json → Checked α}

theorem member?_cons (key : CodeString) (v : Json) (ms : Members) (name : String) :
    member? ((key, v) :: ms) name = if CodeString.ofString name = key then some v else member? ms name := by
  rw [member?, List.lookup_cons]
  split
  · next hkey => rw [if_pos (beq_iff_eq.mp hkey)]
  · next hkey => rw [if_neg (beq_eq_false_iff_ne.mp hkey), member?]

theorem required_eq_ok :
    required ms name check = .ok a ↔ ∃ v, member? ms name = some v ∧ check v = .ok a := by
  rw [required, Checked.under_eq_ok]
  cases member? ms name with
  | none => simp [Checked.fail]
  | some v => simp

theorem optional_eq_ok :
    optional ms name default check = .ok a ↔
      (member? ms name = none ∧ a = default) ∨ ∃ v, member? ms name = some v ∧ check v = .ok a := by
  unfold optional
  cases member? ms name with
  | none => simp [eq_comm]
  | some v => simp [Checked.under_eq_ok]

theorem required_of_member {v : Json} (hv : member? ms name = some v) (h : check v = .ok a) :
    required ms name check = .ok a :=
  required_eq_ok.mpr ⟨v, hv, h⟩

theorem optional_of_member {v : Json} (hv : member? ms name = some v) (h : check v = .ok a) :
    optional ms name default check = .ok a :=
  optional_eq_ok.mpr (.inr ⟨v, hv, h⟩)

/-- A string is accepted as a name if it is a text and a name that is known. -/
theorem checkName_str_eq_ok {fault : Fault} {find : String → Option α} {s : CodeString} :
    checkName fault find (.str s) = .ok a ↔ s.toString?.bind find = some a := by
  simp only [checkName]
  cases s.toString? with
  | none => simp [Checked.fail]
  | some t =>
    rw [Option.map_some, Option.bind_some]
    cases find t <;> simp [Checked.fail]

/-! ## Parts of each kind -/

variable {v : Json} {fault : Fault} {items : List Json} {xs : List α} {write : α → Json}

theorem checkName_text {find : String → Option α} {s : String} (h : find s = some a) :
    checkName fault find (.text s) = .ok a := by
  rw [text, checkName_str_eq_ok, CodeString.toString?_eq_some.mpr rfl]
  exact h

theorem checkSentence_eq_ok {s : String} : checkSentence v = .ok s ↔ v = .text s ∧ s ≠ "" := by
  cases v with
  | str t =>
    simp only [checkSentence, checkString, Checked.andThen, text, Json.str.injEq,
      ← CodeString.toString?_eq_some]
    cases t.toString? with
    | none => simp [Checked.fail]
    | some u =>
      simp only [beq_iff_eq, Option.some.injEq]
      by_cases hu : u = ""
      · rw [if_pos hu]
        constructor
        · intro h
          cases h
        · rintro ⟨rfl, hne⟩
          exact absurd hu hne
      · rw [if_neg hu, Checked.ok.injEq]
        constructor
        · rintro rfl
          exact ⟨rfl, hu⟩
        · exact And.left
  | _ => simp [checkSentence, checkString, Checked.andThen, Checked.fail, text]

theorem checkIntFrom_eq_ok {least n : Int} : checkIntFrom least v = .ok n ↔ checkInt v = .ok n ∧ least ≤ n := by
  rw [checkIntFrom]
  cases checkInt v with
  | bad ps => simp [Checked.andThen]
  | ok m =>
    simp only [Checked.andThen, Checked.ok.injEq]
    split
    · next hleast =>
      rw [Checked.ok.injEq]
      constructor
      · rintro rfl
        exact ⟨rfl, hleast⟩
      · exact And.left
    · next hless =>
      constructor
      · intro h
        cases h
      · rintro ⟨rfl, hleast⟩
        exact absurd hleast hless

/-- A part that may be null is accepted as nothing if it is, and otherwise if its check accepts it. -/
theorem checkOption_eq_ok {o : Option α} :
    checkOption check v = .ok o ↔
      (v = .null ∧ o = none) ∨ (v ≠ .null ∧ ∃ a, check v = .ok a ∧ o = some a) := by
  cases v with
  | null => simp [checkOption, eq_comm]
  | _ =>
    simp only [checkOption, reduceCtorEq, false_and, ne_eq, not_false_eq_true, true_and, false_or]
    exact Checked.map_eq_ok.trans (by simp only [eq_comm])

theorem checkItems_cons_eq_ok {k : Nat} :
    checkItems check k (v :: items) = .ok xs ↔
      ∃ a rest, check v = .ok a ∧ checkItems check (k + 1) items = .ok rest ∧ xs = a :: rest := by
  rw [checkItems, Checked.seq_eq_ok]
  simp only [Checked.map_eq_ok, Checked.under_eq_ok]
  constructor
  · rintro ⟨_, rest, ⟨a, ha, rfl⟩, hrest, rfl⟩
    exact ⟨a, rest, ha, hrest, rfl⟩
  · rintro ⟨a, rest, ha, hrest, rfl⟩
    exact ⟨_, rest, ⟨a, ha, rfl⟩, hrest, rfl⟩

/-- Every member of a list that was accepted was accepted as an item. -/
theorem exists_of_mem_checkItems {k : Nat} (h : checkItems check k items = .ok xs) (ha : a ∈ xs) :
    ∃ v ∈ items, check v = .ok a := by
  induction items generalizing k xs with
  | nil =>
    cases h
    cases ha
  | cons v items ih =>
    obtain ⟨b, rest, hb, hrest, rfl⟩ := checkItems_cons_eq_ok.mp h
    rcases List.mem_cons.mp ha with rfl | ha
    · exact ⟨v, List.mem_cons_self, hb⟩
    · obtain ⟨w, hw, hwa⟩ := ih hrest ha
      exact ⟨w, List.mem_cons_of_mem v hw, hwa⟩

theorem exists_of_mem_checkList (h : checkList fault check v = .ok xs) (ha : a ∈ xs) :
    ∃ w, check w = .ok a := by
  cases v with
  | arr items =>
    obtain ⟨w, _, hw⟩ := exists_of_mem_checkItems h ha
    exact ⟨w, hw⟩
  | _ => cases h

theorem checkItems_map (h : ∀ x ∈ xs, check (write x) = .ok x) (k : Nat) :
    checkItems check k (xs.map write) = .ok xs := by
  induction xs generalizing k with
  | nil => rfl
  | cons x xs ih =>
    have hrest := ih (fun y hy => h y (List.mem_cons_of_mem x hy)) (k + 1)
    exact checkItems_cons_eq_ok.mpr ⟨x, xs, h x List.mem_cons_self, hrest, rfl⟩

theorem checkList_map (h : ∀ x ∈ xs, check (write x) = .ok x) :
    checkList fault check (.arr (xs.map write)) = .ok xs :=
  checkItems_map h 0

end Json

end SourceScan
