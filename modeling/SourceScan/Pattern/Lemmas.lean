import SourceScan.Pattern.Search

/-!
# What a search finds

The two accounts of a pattern agree: `mem_reach` says that the places a pattern leads to are the ends
of the pieces that it spans, and `found_iff` that a search succeeds exactly if the pattern spans some
piece of the text.

A chain of pieces may stand still, and the closure counts its rounds: the rounds are enough because a
chain can be had without its idle steps (`Chain.steps`), and then every step takes up a character.
-/

namespace SourceScan

/-- A chain of exactly `n` steps. -/
inductive ChainOf (step : Nat → Nat → Prop) : Nat → Nat → Nat → Prop
  | nil (i : Nat) : ChainOf step 0 i i
  | cons {n i j k : Nat} : step i j → ChainOf step n j k → ChainOf step (n + 1) i k

namespace ChainOf

variable {step : Nat → Nat → Prop} {n i k : Nat}

theorem chain (h : ChainOf step n i k) : Chain step i k := by
  induction h with
  | nil i => exact .nil i
  | cons s _ ih => exact .cons s ih

end ChainOf

namespace Chain

variable {step : Nat → Nat → Prop} {i k : Nat}

theorem le (up : ∀ i j, step i j → i ≤ j) (h : Chain step i k) : i ≤ k := by
  induction h with
  | nil i => exact Nat.le_refl i
  | cons s _ ih => exact Nat.le_trans (up _ _ s) ih

/-- Without its idle steps a chain has no more steps than it covers places. -/
theorem steps (up : ∀ i j, step i j → i ≤ j) (h : Chain step i k) :
    ∃ n, n ≤ k - i ∧ ChainOf step n i k := by
  induction h with
  | nil i => exact ⟨0, Nat.zero_le _, .nil i⟩
  | @cons i j k s rest ih =>
    obtain ⟨n, hn, hc⟩ := ih
    have hij := up _ _ s
    have hjk := rest.le up
    by_cases h : i = j
    · subst h; exact ⟨n, hn, hc⟩
    · exact ⟨n + 1, by omega, .cons s hc⟩

end Chain

namespace Pattern

variable {t : Array Char} {s : CharSet} {p : Pattern} {i j k : Nat}

/-! ## Places -/

theorem charAt_lt (h : charAt t s i = true) : i < t.size := by
  unfold charAt at h
  split at h
  · assumption
  · cases h

/-- A piece begins no later than it ends, and ends within the text if it begins there. -/
theorem Spans.bounds (p : Pattern) {i j : Nat} (h : Spans t p i j) :
    i ≤ j ∧ j ≤ max i t.size := by
  induction p generalizing i j with
  | empty => subst h; omega
  | char s =>
    obtain ⟨hc, rfl⟩ := h
    have := charAt_lt hc
    omega
  | seq p q ihp ihq =>
    obtain ⟨m, hp, hq⟩ := h
    have := ihp hp
    have := ihq hq
    omega
  | alt p q ihp ihq => exact h.elim ihp ihq
  | run s =>
    obtain ⟨hij, hall⟩ := h
    by_cases he : i = j
    · omega
    · have := charAt_lt (hall (j - 1) (by omega) (by omega))
      omega
  | many p ih =>
    have up : ∀ i j, Spans t p i j → i ≤ j := fun i j h => (ih h).1
    induction h with
    | nil i => omega
    | cons s _ ih' =>
      have := ih s
      omega
  | boundary => obtain ⟨_, rfl⟩ := h; omega
  | atStart => obtain ⟨_, rfl⟩ := h; omega
  | atEnd => obtain ⟨_, rfl⟩ := h; omega
  | notAhead p => obtain ⟨_, rfl⟩ := h; omega

theorem Spans.le {p : Pattern} (h : Spans t p i j) : i ≤ j := (Spans.bounds p h).1

/-! ## Sets of places -/

theorem mem_unionFrom {x : Nat} (fuel : Nat) (is js done : List Nat) :
    x ∈ unionFrom fuel is js done ↔ x ∈ done ∨ x ∈ is ∨ x ∈ js := by
  fun_induction unionFrom fuel is js done <;> grind

@[simp]
theorem mem_union {x : Nat} {is js : List Nat} : x ∈ union is js ↔ x ∈ is ∨ x ∈ js := by
  simp [union, mem_unionFrom]

theorem runEnd_spec (t : Array Char) (s : CharSet) (fuel i : Nat) :
    i ≤ runEnd t s fuel i ∧ (∀ k, i ≤ k → k < runEnd t s fuel i → charAt t s k = true) ∧
      (runEnd t s fuel i = i + fuel ∨ charAt t s (runEnd t s fuel i) = false) := by
  fun_induction runEnd t s fuel i with
  | case1 i => exact ⟨Nat.le_refl i, fun k _ _ => by omega, .inl rfl⟩
  | case2 fuel i h ih =>
    obtain ⟨h1, h2, h3⟩ := ih
    refine ⟨by omega, fun k hk hlt => ?_, h3.imp_left fun e => by omega⟩
    by_cases hki : k = i
    · rw [hki]; exact h
    · exact h2 k (by omega) hlt
  | case3 fuel i h => exact ⟨Nat.le_refl i, fun k _ _ => by omega, .inr (by simpa using h)⟩

/-- The longest run ends where no character of the set follows. -/
theorem charAt_runEnd (t : Array Char) (s : CharSet) (i : Nat) :
    charAt t s (runEnd t s (t.size - i) i) = false := by
  rcases (runEnd_spec t s (t.size - i) i).2.2 with h | h
  · rw [h]
    unfold charAt
    split
    · omega
    · rfl
  · exact h

/-- A run goes no further than the longest one. -/
theorem le_of_run {e : Nat} (hall : ∀ k, i ≤ k → k < j → charAt t s k = true) (hie : i ≤ e)
    (he : charAt t s e = false) : j ≤ e := by
  apply Nat.le_of_not_lt
  intro hlt
  rw [hall e hie hlt] at he
  cases he

/-- What the state of `spread` knows: every place of the last run was found, and the run is as long
as it can be. -/
structure Spreading.Sound (t : Array Char) (s : CharSet) (x : Spreading) : Prop where
  found : ∀ m, x.first ≤ m → m < x.after → m ∈ x.done
  inRun : ∀ m, x.first ≤ m → m + 1 < x.after → charAt t s m = true
  ends : x.first < x.after → charAt t s (x.after - 1) = false

theorem Spreading.Sound.add {x : Spreading} (h : x.Sound t s) (i : Nat) :
    (x.add t s i).Sound t s ∧
      ∀ j, j ∈ (x.add t s i).done ↔ j ∈ x.done ∨ Spans t (run s) i j := by
  obtain ⟨hle, hall, _⟩ := runEnd_spec t s (t.size - i) i
  have hend := charAt_runEnd t s i
  unfold Spreading.add
  split
  · rename_i hin
    simp only [Bool.and_eq_true, decide_eq_true_eq] at hin
    refine ⟨h, fun j => ⟨.inl, fun hj => hj.elim id fun hr => ?_⟩⟩
    have hj := le_of_run hr.2 (e := x.after - 1) (by omega) (h.ends (by omega))
    have := hr.1
    exact h.found j (by omega) (by omega)
  · generalize runEnd t s (t.size - i) i = e at *
    refine ⟨⟨fun m hm hlt => ?_, fun m hm hlt => ?_, fun _ => ?_⟩, fun j => ?_⟩
    · simp only [List.mem_append, List.mem_reverse, List.mem_range'_1]
      dsimp only at hm hlt
      omega
    · dsimp only at hm hlt
      exact hall m hm (by omega)
    · simpa using hend
    · simp only [List.mem_append, List.mem_reverse, List.mem_range'_1]
      constructor
      · rintro (hj | hj)
        · exact .inr ⟨hj.1, fun k hk hlt => hall k hk (by omega)⟩
        · exact .inl hj
      · rintro (hj | hj)
        · exact .inr hj
        · have := le_of_run hj.2 hle hend
          have := hj.1
          omega

theorem mem_spread {is : List Nat} :
    j ∈ spread t s is ↔ ∃ i ∈ is, Spans t (run s) i j := by
  have key : ∀ (is : List Nat) (x : Spreading), x.Sound t s →
      (j ∈ (is.foldl (Spreading.add t s) x).done ↔
        j ∈ x.done ∨ ∃ i ∈ is, Spans t (run s) i j) := by
    intro is
    induction is with
    | nil => intro x _; simp
    | cons i is ih =>
      intro x hx
      obtain ⟨hs, hm⟩ := hx.add i
      rw [List.foldl_cons, ih _ hs, hm]
      simp only [List.mem_cons, exists_eq_or_imp, or_assoc]
  have h0 : Spreading.Sound t s ⟨[], 0, 0⟩ :=
    ⟨fun m _ h => by simp at h, fun m _ h => by simp at h, fun h => by simp at h⟩
  rw [spread, List.mem_reverse, key is _ h0]
  simp

/-- The closure collects what was done and what at most `fuel` steps lead to from the frontier. -/
theorem mem_closure {step : List Nat → List Nat} {r : Nat → Nat → Prop}
    (hstep : ∀ is j, j ∈ step is ↔ ∃ i ∈ is, r i j) (fuel : Nat) (frontier done : List Nat) :
    j ∈ closure step fuel frontier done ↔
      j ∈ done ∨ ∃ n, n ≤ fuel ∧ ∃ i ∈ frontier, ChainOf r n i j := by
  induction fuel generalizing frontier done with
  | zero =>
    simp only [closure, List.mem_reverse, List.mem_append]
    constructor
    · rintro (h | h)
      · exact .inr ⟨0, Nat.le_refl 0, j, h, .nil j⟩
      · exact .inl h
    · rintro (h | ⟨n, hn, i, hi, hc⟩)
      · exact .inr h
      · obtain rfl : n = 0 := by omega
        cases hc
        exact .inl hi
  | succ fuel ih =>
    cases frontier with
    | nil => simp [closure]
    | cons i is =>
      simp only [closure]
      rw [ih]
      simp only [List.mem_append, List.mem_reverse]
      constructor
      · rintro ((h | h) | ⟨n, hn, m, hm, hc⟩)
        · exact .inr ⟨0, Nat.zero_le _, j, h, .nil j⟩
        · exact .inl h
        · obtain ⟨m', hm', hr⟩ := (hstep _ _).1 hm
          exact .inr ⟨n + 1, by omega, m', hm', .cons hr hc⟩
      · rintro (h | ⟨n, hn, m, hm, hc⟩)
        · exact .inl (.inr h)
        · cases hc with
          | nil => exact .inl (.inl hm)
          | cons hr hc =>
            rename_i n m'
            exact .inr ⟨n, by omega, m', (hstep _ _).2 ⟨m, hm, hr⟩, hc⟩

/-! ## The search and the relation -/

/-- The places that a pattern leads to are the ends of the pieces that it spans. -/
theorem mem_reach (t : Array Char) (p : Pattern) (is : List Nat) (j : Nat) :
    j ∈ reach t p is ↔ ∃ i ∈ is, Spans t p i j := by
  induction p generalizing is j with
  | empty => simp [reach, Spans]
  | char s => simp only [reach, Spans, List.mem_filterMap]; grind
  | seq p q ihp ihq =>
    have : j ∈ reach t (seq p q) is ↔ j ∈ reach t q (reach t p is) := by
      rw [reach]
      split
      · rename_i h
        rw [h, ihq]
        simp
      · rename_i h
        rw [h]
    rw [this, ihq]
    simp only [ihp, Spans]
    grind
  | alt p q ihp ihq => simp only [reach, mem_union, ihp, ihq, Spans]; grind
  | run s => exact mem_spread
  | many p ih =>
    rw [reach, mem_closure (fun is j => ih is j)]
    simp only [List.not_mem_nil, false_or, Spans]
    constructor
    · rintro ⟨n, _, i, hi, hc⟩
      exact ⟨i, hi, hc.chain⟩
    · rintro ⟨i, hi, hc⟩
      obtain ⟨n, hn, hc'⟩ := hc.steps fun _ _ h => h.le
      have := Spans.bounds (t := t) (many p) hc
      exact ⟨n, by omega, i, hi, hc'⟩
  | boundary => simp only [reach, List.mem_filter, Spans]; grind
  | atStart => simp only [reach, List.mem_filter, Spans, beq_iff_eq]; grind
  | atEnd => simp only [reach, List.mem_filter, Spans]; grind
  | notAhead p ih =>
    have hempty : ∀ i, (reach t p [i]).isEmpty = true ↔ ∀ k, ¬ Spans t p i k := by
      intro i
      rw [List.isEmpty_iff, List.eq_nil_iff_forall_not_mem]
      simp only [ih, List.mem_singleton, exists_eq_left]
    simp only [reach, List.mem_filter, Spans, hempty]
    grind

/-! ## Where a search begins -/

theorem Spans.lt_of_not_nullable (p : Pattern) {i j : Nat} (h : Spans t p i j)
    (hn : p.nullable = false) : i < j := by
  induction p generalizing i j with
  | char s => obtain ⟨_, rfl⟩ := h; omega
  | seq p q ihp ihq =>
    obtain ⟨m, hp, hq⟩ := h
    have := hp.le
    have := hq.le
    simp only [nullable, Bool.and_eq_false_iff] at hn
    rcases hn with hn | hn
    · have := ihp hp hn
      omega
    · have := ihq hq hn
      omega
  | alt p q ihp ihq =>
    simp only [nullable, Bool.or_eq_false_iff] at hn
    exact h.elim (ihp · hn.1) (ihq · hn.2)
  | _ => simp [nullable] at hn

theorem charAt_joinSets_left {a b : Option CharSet} (h : ∃ s, a = some s ∧ charAt t s i = true) :
    ∃ s, joinSets a b = some s ∧ charAt t s i = true := by
  obtain ⟨s, rfl, h⟩ := h
  cases b with
  | none => exact ⟨s, rfl, h⟩
  | some s' => exact ⟨.union s s', rfl, by unfold charAt at h ⊢; grind [CharSet.contains]⟩

theorem charAt_joinSets_right {a b : Option CharSet} (h : ∃ s, b = some s ∧ charAt t s i = true) :
    ∃ s, joinSets a b = some s ∧ charAt t s i = true := by
  obtain ⟨s, rfl, h⟩ := h
  cases a with
  | none => exact ⟨s, rfl, h⟩
  | some s' => exact ⟨.union s' s, rfl, by unfold charAt at h ⊢; grind [CharSet.contains]⟩

/-- A piece that is not empty begins with a character of the pattern's first set. -/
theorem Spans.charAt_first (p : Pattern) {i j : Nat} (h : Spans t p i j) (hlt : i < j) :
    ∃ s, p.first = some s ∧ charAt t s i = true := by
  induction p generalizing i j with
  | char s => exact ⟨s, rfl, h.1⟩
  | run s => exact ⟨s, rfl, h.2 i (Nat.le_refl i) hlt⟩
  | seq p q ihp ihq =>
    obtain ⟨m, hp, hq⟩ := h
    have := hp.le
    rw [first]
    split
    · by_cases him : i = m
      · subst him; exact charAt_joinSets_right (ihq hq hlt)
      · exact charAt_joinSets_left (ihp hp (by omega))
    · rename_i hn
      exact ihp hp (Spans.lt_of_not_nullable p hp (by simpa using hn))
  | alt p q ihp ihq =>
    rw [first]
    exact h.elim (fun h => charAt_joinSets_left (ihp h hlt))
      (fun h => charAt_joinSets_right (ihq h hlt))
  | many p ih =>
    rw [first]
    induction h with
    | nil i => omega
    | @cons i j k s rest ih' =>
      have := s.le
      by_cases hij : i = j
      · subst hij; exact ih' hlt
      · exact ih s (by omega)
  | empty => cases h; omega
  | _ => obtain ⟨_, rfl⟩ := h; omega

theorem mem_startsUpTo {x : Nat} (i : Nat) (done : List Nat) :
    x ∈ startsUpTo s t i done ↔ x ∈ done ∨ (x ≤ i ∧ charAt t s x = true) := by
  induction i generalizing done with
  | zero => rw [startsUpTo]; grind
  | succ i ih => rw [startsUpTo, ih]; grind

/-- No piece begins at a place that the search leaves out. -/
theorem mem_starts (h : Spans t p i j) (hi : i ≤ t.size) : i ∈ starts p t := by
  unfold starts
  split
  · simp; omega
  · rename_i hn
    obtain ⟨s, hs, hc⟩ := Spans.charAt_first p h (Spans.lt_of_not_nullable p h (by simpa using hn))
    rw [hs]
    exact (mem_startsUpTo _ _).2 (.inr ⟨hi, hc⟩)

theorem le_of_mem_starts (h : i ∈ starts p t) : i ≤ t.size := by
  unfold starts at h
  split at h
  · simp at h; omega
  · split at h
    · exact (((mem_startsUpTo _ _).1 h).resolve_left (by simp)).1
    · simp at h

/-- A search succeeds exactly if the pattern spans some piece of the text. -/
theorem found_iff (p : Pattern) (t : Array Char) : found p t = true ↔ OccursIn t p := by
  have : found p t = true ↔ ∃ j, j ∈ reach t p (starts p t) := by
    unfold found
    split
    · rename_i h
      simp [h, mem_reach]
    · rename_i h
      rw [h, Bool.not_eq_true', List.isEmpty_eq_false_iff_exists_mem]
  rw [this]
  simp only [mem_reach]
  constructor
  · rintro ⟨j, i, hi, h⟩
    exact ⟨i, j, le_of_mem_starts hi, h⟩
  · rintro ⟨i, j, hi, h⟩
    exact ⟨j, i, mem_starts h hi, h⟩

end Pattern

end SourceScan
