import SourceScan.Proofs.Json.Steps

/-!
# Numbers by the grammar

`IsNumber` is the grammar of JSON's numbers, part by part: a sign, digits without a needless zero, a fraction
and an exponent. The reader takes every number whole, unless it is an integer of too many digits
(`readNumber_of_isNumber`).
-/

namespace SourceScan.Json

/-- One digit or more. -/
def Digits (ds : List Char) : Prop := ds ≠ [] ∧ ∀ c ∈ ds, c.isDigit = true

/-- A zero alone, or digits of which the first is no zero. -/
def IsWhole (cs : List Char) : Prop := cs = ['0'] ∨ Digits cs ∧ cs.head? ≠ some '0'

/-- Nothing, or a point and digits. -/
def IsFraction (cs : List Char) : Prop := cs = [] ∨ ∃ ds, Digits ds ∧ cs = '.' :: ds

/-- Nothing, or an `e` of either case, a sign or none, and digits. -/
def IsExponent (cs : List Char) : Prop :=
  cs = [] ∨ ∃ e sign ds, (e = 'e' ∨ e = 'E') ∧ (sign = [] ∨ sign = ['+'] ∨ sign = ['-']) ∧ Digits ds ∧
    cs = e :: (sign ++ ds)

/-- A number by the grammar. -/
def IsNumber (cs : List Char) : Prop :=
  ∃ sign whole fraction exponent, (sign = [] ∨ sign = ['-']) ∧ IsWhole whole ∧ IsFraction fraction ∧
    IsExponent exponent ∧ cs = sign ++ (whole ++ (fraction ++ exponent))

/-- No digit comes next. -/
def NoDigit (cs : List Char) : Prop := ∀ c, cs.head? = some c → c.isDigit = false

variable {cs ds whole fraction exponent after : List Char} {place : Nat}

/-! ## Parts -/

theorem takeWhile_digits (hd : ∀ c ∈ ds, c.isDigit = true) (ha : NoDigit after) :
    (ds ++ after).takeWhile Char.isDigit = ds := by
  rw [List.takeWhile_append_of_pos hd]
  cases after with
  | nil => rw [List.takeWhile_nil, List.append_nil]
  | cons c after =>
    rw [List.takeWhile_cons_of_neg (by rw [ha c rfl]; exact Bool.false_ne_true), List.append_nil]

theorem IsWhole.exists_digit (h : IsWhole whole) : ∃ c cs, whole = c :: cs ∧ c.isDigit = true := by
  rcases h with rfl | ⟨⟨hne, hall⟩, _⟩
  · exact ⟨_, [], rfl, by decide⟩
  · obtain ⟨c, cs, rfl⟩ := List.exists_cons_of_ne_nil hne
    exact ⟨c, cs, rfl, hall c List.mem_cons_self⟩

theorem IsExponent.noDigit (h : IsExponent exponent) : NoDigit exponent := by
  intro c hc
  rcases h with rfl | ⟨e, sign, ds, he, _, _, rfl⟩
  · cases hc
  · cases hc
    rcases he with rfl | rfl <;> decide

theorem IsFraction.noDigit (hf : IsFraction fraction) (he : IsExponent exponent) :
    NoDigit (fraction ++ exponent) := by
  rcases hf with rfl | ⟨ds, _, rfl⟩
  · exact he.noDigit
  · intro c hc
    cases hc
    decide

theorem splitSign_of_isWhole (h : IsWhole whole) : splitSign (whole ++ after) = (false, whole ++ after) := by
  obtain ⟨c, cs, rfl, hc⟩ := h.exists_digit
  rw [List.cons_append, splitSign]
  intro body heq
  rw [(List.cons.inj heq).1] at hc
  exact absurd hc (by decide)

theorem wholePart_of_isWhole (h : IsWhole whole) (ha : NoDigit after) :
    wholePart (whole ++ after) = whole := by
  rcases h with rfl | ⟨⟨hne, hall⟩, hzero⟩
  · rfl
  · obtain ⟨c, cs, rfl⟩ := List.exists_cons_of_ne_nil hne
    rw [List.cons_append, wholePart, ← List.cons_append, takeWhile_digits hall ha]
    intro rest heq
    rw [(List.cons.inj heq).1] at hzero
    exact hzero rfl

/-- The fraction is read whole: its digits, and what comes after them. -/
theorem readFraction_of_isFraction (hf : IsFraction fraction) (he : IsExponent exponent) :
    ∃ ds, readFraction (fraction ++ exponent) = (ds, exponent) ∧
      fraction.length = if ds.isEmpty then 0 else ds.length + 1 := by
  rcases hf with rfl | ⟨ds, ⟨hne, hall⟩, rfl⟩
  · refine ⟨[], ?_, rfl⟩
    rcases he with rfl | ⟨e, sign, ds, he, _, _, rfl⟩
    · rfl
    · rcases he with rfl | rfl <;> rfl
  · have hempty : ds.isEmpty = false := List.isEmpty_eq_false_iff.mpr hne
    refine ⟨ds, ?_, by rw [hempty]; rfl⟩
    simp only [List.cons_append, readFraction, takeWhile_digits hall he.noDigit, hempty, Bool.false_eq_true,
      if_false, List.drop_left]

/-- The exponent is read whole. -/
theorem readExponent?_of_isExponent (h : IsExponent exponent) :
    (exponent = [] ∧ readExponent? exponent = none) ∨
      ∃ n, readExponent? exponent = some (n, exponent.length) := by
  rcases h with rfl | ⟨e, sign, ds, he, hsign, ⟨hne, hall⟩, rfl⟩
  · exact Or.inl ⟨rfl, rfl⟩
  · right
    have hempty : ds.isEmpty = false := List.isEmpty_eq_false_iff.mpr hne
    have hdigits : ds.takeWhile Char.isDigit = ds := by
      have htake : (ds ++ []).takeWhile Char.isDigit = ds := takeWhile_digits hall nofun
      rwa [List.append_nil] at htake
    have hmark : (e == 'e' || e == 'E') = true := by
      rcases he with rfl | rfl <;> rfl
    rcases hsign with rfl | rfl | rfl
    · obtain ⟨c, cs, rfl⟩ := List.exists_cons_of_ne_nil hne
      have hc := hall c List.mem_cons_self
      simp only [List.nil_append, readExponent?, hmark, if_true]
      split
      · next heq =>
        rw [(List.cons.inj heq).1] at hc
        exact absurd hc (by decide)
      · next heq =>
        rw [(List.cons.inj heq).1] at hc
        exact absurd hc (by decide)
      · rw [hdigits, hempty]
        exact ⟨_, congrArg some (Prod.ext rfl (Nat.add_comm 1 _))⟩
    · simp only [List.singleton_append, readExponent?, hmark, if_true, hdigits, hempty]
      exact ⟨_, congrArg some (Prod.ext rfl (Nat.add_comm 2 _))⟩
    · simp only [List.singleton_append, readExponent?, hmark, if_true, hdigits, hempty]
      exact ⟨_, congrArg some (Prod.ext rfl (Nat.add_comm 2 _))⟩

/-- A number is as long as its parts are together. -/
theorem numberOf_length (negative : Bool) (whole after : List Char) :
    (∃ l, numberOf negative whole after = .error (.limit l)) ∨
      ∃ v, numberOf negative whole after = .ok (v, (if negative then 1 else 0) + whole.length +
        (if (readFraction after).1.isEmpty then 0 else (readFraction after).1.length + 1) +
        ((readExponent? (readFraction after).2).map (·.2)).getD 0) := by
  simp only [numberOf]
  cases hexponent : readExponent? (readFraction after).2 with
  | none =>
    cases hfraction : (readFraction after).1.isEmpty with
    | true =>
      simp only [Option.isNone_none, Bool.and_self, if_true]
      by_cases hlimit : IntegerText.maxDigits < whole.length
      · rw [if_pos hlimit]
        exact Or.inl ⟨_, rfl⟩
      · rw [if_neg hlimit]
        exact Or.inr ⟨_, rfl⟩
    | false => exact Or.inr ⟨_, rfl⟩
  | some e =>
    rw [Option.isNone_some, Bool.and_false, if_neg Bool.false_ne_true]
    exact Or.inr ⟨_, rfl⟩

/-- Every number by the grammar is read whole, or has too many digits. -/
theorem readNumber_of_isNumber (place : Nat) (h : IsNumber cs) :
    (∃ l, readNumber place cs = .error (.limit l)) ∨ ∃ v, readNumber place cs = .ok (v, cs.length) := by
  obtain ⟨sign, whole, fraction, exponent, hsign, hwhole, hfraction, hexponent, rfl⟩ := h
  have hsplit : splitSign (sign ++ (whole ++ (fraction ++ exponent))) =
      (!sign.isEmpty, whole ++ (fraction ++ exponent)) := by
    rcases hsign with rfl | rfl
    · rw [List.nil_append, splitSign_of_isWhole hwhole]
      rfl
    · rfl
  have hlength : sign.length = if (!sign.isEmpty) = true then 1 else 0 := by
    rcases hsign with rfl | rfl <;> rfl
  have hpart := wholePart_of_isWhole hwhole (hfraction.noDigit hexponent)
  obtain ⟨c, ds, hdigit, _⟩ := hwhole.exists_digit
  have hempty : whole.isEmpty = false := by
    rw [hdigit]
    rfl
  obtain ⟨digits, hread, hpoint⟩ := readFraction_of_isFraction hfraction hexponent
  rw [readNumber_eq, hsplit]
  dsimp only
  rw [hpart, hempty, if_neg Bool.false_ne_true, List.drop_left]
  refine (numberOf_length (!sign.isEmpty) whole (fraction ++ exponent)).imp_right ?_
  intro ⟨v, hv⟩
  refine ⟨v, hv.trans ?_⟩
  rw [hread, ← hlength, ← hpoint]
  simp only [List.length_append]
  rcases readExponent?_of_isExponent hexponent with ⟨rfl, hnone⟩ | ⟨n, hsome⟩
  · rw [hnone]
    simp only [Option.map_none, Option.getD_none, List.length_nil, Nat.add_assoc]
  · rw [hsome]
    simp only [Option.map_some, Option.getD_some, Nat.add_assoc]

/-- Nines are a number. -/
theorem isNumber_nines (n : Nat) : IsNumber (List.replicate (n + 1) '9') := by
  have hdigits : Digits (List.replicate (n + 1) '9') := by
    refine ⟨by simp, fun c hc => ?_⟩
    rw [List.eq_of_mem_replicate hc]
    decide
  refine ⟨[], _, [], [], Or.inl rfl, Or.inr ⟨hdigits, ?_⟩, Or.inl rfl, Or.inl rfl, ?_⟩
  · rw [List.replicate_succ, List.head?_cons]
    decide
  · rw [List.nil_append, List.append_nil, List.append_nil]

end SourceScan.Json
