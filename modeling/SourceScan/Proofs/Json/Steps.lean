import SourceScan.Json.Reader

/-!
# Steps of the JSON reader

What the reader does first, by the character that a value begins with, and what it makes of a number from
its three parts. All else on the reader goes by these equations and does not open its definitions again.
-/

namespace SourceScan.Json

variable {fuel depth place : Nat} {c : Char} {text rest : CodeString}

/-! ## Values -/

-- The equations of the reader are made once here, so that none of the lemmas on them waits for another one.
attribute [local simp] readValue

theorem readValue_quote :
    readValue (fuel + 1) depth place (.scalar '\x22' :: rest) =
      (readString place (fuel + 1) (place + 1) rest []).map fun r => (.str r.1, r.2) := by
  cases depth <;> simp only [readValue, beq_self_eq_true, if_true] <;>
    cases readString place (fuel + 1) (place + 1) rest [] <;> rfl

theorem readValue_bracket_zero :
    readValue (fuel + 1) 0 place (.scalar '[' :: rest) = .error (.limit (.nesting .array)) := by
  simp only [readValue]
  rfl

theorem readValue_bracket :
    readValue (fuel + 1) (depth + 1) place (.scalar '[' :: rest) =
      if (skipSpace (place + 1) rest).2.head? = some (.scalar ']') then
        .ok (.arr [], (skipSpace (place + 1) rest).1 + 1, (skipSpace (place + 1) rest).2.drop 1)
      else readItems fuel depth (skipSpace (place + 1) rest).1 (skipSpace (place + 1) rest).2 [] := by
  simp only [readValue, beq_iff_eq]
  rfl

theorem readValue_brace_zero :
    readValue (fuel + 1) 0 place (.scalar '\x7b' :: rest) = .error (.limit (.nesting .object)) := by
  simp only [readValue]
  rfl

theorem readValue_brace :
    readValue (fuel + 1) (depth + 1) place (.scalar '\x7b' :: rest) =
      if (skipSpace (place + 1) rest).2.head? = some (.scalar '\x7d') then
        .ok (.obj [], (skipSpace (place + 1) rest).1 + 1, (skipSpace (place + 1) rest).2.drop 1)
      else readMembers fuel depth (skipSpace (place + 1) rest).1 (skipSpace (place + 1) rest).2 [] := by
  simp only [readValue, beq_iff_eq]
  rfl

theorem readValue_atom (hquote : c ≠ '\x22') (hbracket : c ≠ '[') (hbrace : c ≠ '\x7b') :
    readValue (fuel + 1) depth place (.scalar c :: rest) = readAtom place (.scalar c :: rest) := by
  cases depth <;> simp only [readValue, beq_iff_eq, hquote, hbracket, hbrace, if_false]

/-- A value begins with a character. -/
theorem exists_scalar_of_readValue {r : Json × Nat × CodeString}
    (h : readValue fuel depth place text = .ok r) : ∃ c rest, text = .scalar c :: rest := by
  cases fuel with
  | zero =>
    rw [readValue] at h
    cases h
  | succ fuel =>
    cases text with
    | nil =>
      simp only [readValue] at h
      cases h
    | cons p rest =>
      cases p with
      | scalar c => exact ⟨c, rest, rfl⟩
      | lone n =>
        simp only [readValue] at h
        cases h

/-! ## Numbers -/

/-- The sign of a number and what comes after it. -/
def splitSign (cs : List Char) : Bool × List Char :=
  match cs with
  | '-' :: body => (true, body)
  | _ => (false, cs)

/-- The digits before the point: a zero stands alone. -/
def wholePart (body : List Char) : List Char :=
  match body with
  | '0' :: _ => ['0']
  | _ => body.takeWhile Char.isDigit

/-- The number of a sign and a whole part with what comes after it, and how long it is. -/
def numberOf (negative : Bool) (whole after : List Char) : Except ReadError (Json × Nat) :=
  let (fraction, rest) := readFraction after
  let signLength := if negative then 1 else 0
  let pointLength := if fraction.isEmpty then 0 else fraction.length + 1
  let length := signLength + whole.length + pointLength
  let exponent := readExponent? rest
  if fraction.isEmpty && exponent.isNone then
    if IntegerText.maxDigits < whole.length then .error (.limit (.digits whole.length))
    else
      let n : Int := IntegerText.value whole
      .ok (.int (if negative then -n else n), length)
  else
    let (power, powerLength) := exponent.getD (0, 0)
    .ok (.real (Binary64.ofDecimal negative (IntegerText.value (whole ++ fraction))
      (power - fraction.length)), length + powerLength)

theorem readNumber_eq (place : Nat) (cs : List Char) :
    readNumber place cs =
      if (wholePart (splitSign cs).2).isEmpty then .error (.malformed .value place)
      else numberOf (splitSign cs).1 (wholePart (splitSign cs).2)
        ((splitSign cs).2.drop (wholePart (splitSign cs).2).length) := rfl

/-- A number is an integer, or a real number if it has a fraction or an exponent. -/
theorem int_or_real_of_numberOf {negative : Bool} {whole after : List Char} {r : Json × Nat}
    (h : numberOf negative whole after = .ok r) : (∃ n, r.1 = .int n) ∨ ∃ x, r.1 = .real x := by
  simp only [numberOf] at h
  by_cases hplain : ((readFraction after).1.isEmpty &&
      (readExponent? (readFraction after).2).isNone) = true
  · rw [if_pos hplain] at h
    by_cases hlimit : IntegerText.maxDigits < whole.length
    · rw [if_pos hlimit] at h
      cases h
    · rw [if_neg hlimit] at h
      cases h
      exact Or.inl ⟨_, rfl⟩
  · rw [if_neg hplain] at h
    cases h
    exact Or.inr ⟨_, rfl⟩

end SourceScan.Json
