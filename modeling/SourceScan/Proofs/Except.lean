/-!
# What a check that ended went through

A check that ends with an answer had an answer at every step (`bind_eq_ok`), and one that goes through a
list had one for each of its members (`mapM_cons_eq_ok`). A check that ends with an error had it at one step
and answers before (`bind_eq_error`).
-/

namespace SourceScan

variable {ε α β : Type} {f : α → Except ε β} {l : List α} {ys : List β} {x : α} {y : β} {e : ε}

/-- Two steps end with an answer if the first does and the second does on what the first gave. -/
theorem bind_eq_ok {step : Except ε α} : (step >>= f) = .ok y ↔ ∃ x, step = .ok x ∧ f x = .ok y := by
  cases step with
  | error e =>
    constructor
    · intro h
      cases h
    · intro h
      obtain ⟨x, hx, _⟩ := h
      cases hx
  | ok x =>
    constructor
    · intro h
      exact ⟨x, rfl, h⟩
    · intro h
      obtain ⟨x', hx, hy⟩ := h
      cases hx
      exact hy

/-- Two steps end with an error if the first does, or if the second does on what the first gave. -/
theorem bind_eq_error {step : Except ε α} :
    (step >>= f) = .error e ↔ step = .error e ∨ ∃ x, step = .ok x ∧ f x = .error e := by
  cases step with
  | error e' =>
    constructor
    · intro h
      cases h
      exact .inl rfl
    · rintro (h | ⟨x, hx, _⟩)
      · cases h
        rfl
      · cases hx
  | ok x =>
    constructor
    · intro h
      exact .inr ⟨x, rfl, h⟩
    · rintro (h | ⟨x', hx, he⟩)
      · cases h
      · cases hx
        exact he

theorem mapM_cons_eq_ok :
    (x :: l).mapM f = .ok ys ↔ ∃ y rest, f x = .ok y ∧ l.mapM f = .ok rest ∧ ys = y :: rest := by
  rw [List.mapM_cons, bind_eq_ok]
  constructor
  · intro h
    obtain ⟨y, hx, h⟩ := h
    obtain ⟨rest, hrest, h⟩ := bind_eq_ok.mp h
    cases h
    exact ⟨y, rest, hx, hrest, rfl⟩
  · intro h
    obtain ⟨y, rest, hx, hrest, rfl⟩ := h
    exact ⟨y, hx, bind_eq_ok.mpr ⟨rest, hrest, rfl⟩⟩

end SourceScan
