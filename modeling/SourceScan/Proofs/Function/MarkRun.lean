import SourceScan.Proofs.Function.BodyEnd

/-!
# Runs over marks

What the pass over the marks (`settle`) makes of marks that come one part after the other. A part after which
the body is still open at each of its places only changes the depth (`settle_append_of_pos`); a part that
brings the depth down to zero closes the body in it (`exists_closes_of_balance`). Until a body is open, closing
braces only lower the depth (`settle_lead`), and a body closes no later the less deep the pass starts
(`settle_noLater`).
-/

namespace SourceScan.BraceBody

variable {depth outer : Int} {opened : Bool} {marks later : List (Nat × Mark)} {ms ns : List Mark} {m : Mark}
  {line start : Nat} {ending other : Option Nat}

/-! ## The balance of marks in a row -/

/-- What a mark adds to the depth. -/
def Mark.weight : Mark → Int
  | opens => 1
  | closes => -1
  | ends => 0

theorem balance_nil : balance [] = 0 := rfl

theorem balance_append : balance (ms ++ ns) = balance ms + balance ns := by
  simp only [balance, List.count_append]
  omega

theorem balance_cons : balance (m :: ms) = m.weight + balance ms := by
  rw [← List.singleton_append, balance_append]
  cases m <;> rfl

/-- Marks that are all closing braces lower the depth by their number. -/
theorem balance_closes_only (h : ∀ m ∈ ms, m = .closes) : balance ms = -ms.length := by
  rw [List.eq_replicate_of_mem h]
  simp [balance, List.count_replicate]

/-! ## Numbered marks -/

theorem numbered_append (start : Nat) (before after : List (List Mark)) :
    numbered start (before ++ after) = numbered start before ++ numbered (start + before.length) after := by
  rw [numbered, List.zipIdx_append, List.flatMap_append]
  rfl

theorem map_snd_numbered (start : Nat) (onLines : List (List Mark)) :
    (numbered start onLines).map Prod.snd = onLines.flatten := by
  induction onLines generalizing start with
  | nil => rfl
  | cons onLine rest ih =>
    rw [numbered_cons, List.map_append, List.map_map, ih, List.flatten_cons]
    congr 1
    exact List.map_id _

theorem bounds_of_mem_numbered {onLines : List (List Mark)} (h : (line, m) ∈ numbered start onLines) :
    start ≤ line ∧ line < start + onLines.length := by
  induction onLines generalizing start with
  | nil => cases h
  | cons onLine rest ih =>
    rw [List.length_cons]
    rw [numbered_cons] at h
    rcases List.mem_append.mp h with h | h
    · obtain ⟨_, _, heq⟩ := List.mem_map.mp h
      cases heq
      omega
    · have := ih h
      omega

/-- The marks come in the order of their lines. -/
theorem pairwise_numbered (start : Nat) (onLines : List (List Mark)) :
    (numbered start onLines).Pairwise fun a b => a.1 ≤ b.1 := by
  induction onLines generalizing start with
  | nil => exact .nil
  | cons onLine rest ih =>
    rw [numbered_cons]
    refine List.pairwise_append.mpr ⟨?_, ih (start + 1), ?_⟩
    · exact List.pairwise_map.mpr (List.pairwise_of_forall fun _ _ => Nat.le_refl start)
    · intro a ha b hb
      obtain ⟨_, _, rfl⟩ := List.mem_map.mp ha
      have := (bounds_of_mem_numbered hb).1
      omega

/-! ## A part of the marks -/

/-- In an open body a mark that does not close it changes the depth by its weight. -/
theorem settle_cons_of_open (h : m = .closes → 1 < depth) :
    settle depth true ((line, m) :: later) = settle (depth + m.weight) true later := by
  cases m with
  | opens => rfl
  | closes =>
    have hopen : ¬(true && decide (depth - 1 ≤ 0)) = true := by
      have := h rfl
      simp
      omega
    rw [settle, if_neg hopen]
    rfl
  | ends => rw [settle, if_pos rfl, Mark.weight, Int.add_zero]

/-- A closing brace at depth one or less closes an open body. -/
theorem settle_closes (h : depth ≤ 1) : settle depth true ((line, .closes) :: later) = some (some line) := by
  have hclosed : (true && decide (depth - 1 ≤ 0)) = true := by
    simp
    omega
  rw [settle, if_pos hclosed]

/-- A part that leaves the body open at each of its places adds its balance to the depth. -/
theorem settle_append_of_pos
    (h : ∀ seen, seen <+: marks.map Prod.snd → seen ≠ [] → 0 < depth + balance seen) :
    settle depth true (marks ++ later) = settle (depth + balance (marks.map Prod.snd)) true later := by
  induction marks generalizing depth with
  | nil => rw [List.map_nil, balance_nil, Int.add_zero, List.nil_append]
  | cons first rest ih =>
    obtain ⟨line, m⟩ := first
    have hopen : m = .closes → 1 < depth := by
      rintro rfl
      have hfirst : 0 < depth - 1 := h [.closes] (List.cons_prefix_cons.mpr ⟨rfl, List.nil_prefix⟩) nofun
      omega
    have hrest : ∀ seen, seen <+: rest.map Prod.snd → seen ≠ [] → 0 < depth + m.weight + balance seen := by
      intro seen hseen _
      have hpos := h (m :: seen) (List.cons_prefix_cons.mpr ⟨rfl, hseen⟩) nofun
      rw [balance_cons] at hpos
      omega
    rw [List.cons_append, settle_cons_of_open hopen, ih hrest, List.map_cons, balance_cons, Int.add_assoc]

/-- Closing braces that leave an open body open lower the depth by their number. -/
theorem settle_closes_only (h : ∀ m ∈ marks.map Prod.snd, m = .closes)
    (hpos : .closes ∈ marks.map Prod.snd → 0 < depth - marks.length) :
    settle depth true (marks ++ later) = settle (depth - marks.length) true later := by
  have hbalance : balance (marks.map Prod.snd) = -marks.length := by
    rw [balance_closes_only h, List.length_map]
  rw [settle_append_of_pos, hbalance, Int.sub_eq_add_neg]
  intro seen hseen hne
  have hcloses : ∀ m ∈ seen, m = .closes := fun m hm => h m (hseen.mem hm)
  obtain ⟨m, rest, rfl⟩ := List.exists_cons_of_ne_nil hne
  have hdepth := hpos (hcloses m List.mem_cons_self ▸ hseen.mem List.mem_cons_self)
  have hlength := hseen.length_le
  rw [List.length_map] at hlength
  rw [balance_closes_only hcloses]
  omega

/-- Marks that lower the depth hold a closing brace. -/
theorem closes_mem_of_balance_neg (h : balance ms < 0) : .closes ∈ ms := by
  apply Classical.byContradiction
  intro hnone
  have hcount : ms.count .closes = 0 := List.count_eq_zero.mpr hnone
  rw [balance, hcount] at h
  omega

/-- A part with a closing brace that brings the depth down to zero closes the body in it. -/
theorem exists_closes_of_balance (hin : .closes ∈ marks.map Prod.snd)
    (hle : depth + balance (marks.map Prod.snd) ≤ 0) :
    ∃ line, (line, .closes) ∈ marks ∧ ∀ later, settle depth true (marks ++ later) = some (some line) := by
  induction marks generalizing depth with
  | nil => cases hin
  | cons first rest ih =>
    obtain ⟨line, m⟩ := first
    rw [List.map_cons, balance_cons, ← Int.add_assoc] at hle
    by_cases hclosed : m = .closes ∧ depth ≤ 1
    · obtain ⟨rfl, hdepth⟩ := hclosed
      exact ⟨line, List.mem_cons_self, fun _ => settle_closes hdepth⟩
    · have hopen : m = .closes → 1 < depth := fun hm => Int.not_le.mp fun hdepth => hclosed ⟨hm, hdepth⟩
      have hin' : .closes ∈ rest.map Prod.snd := by
        rcases List.mem_cons.mp hin with rfl | hin
        · -- The depth is still above zero after this brace, so the rest has to bring it down.
          have hdepth := hopen rfl
          rw [Mark.weight] at hle
          exact closes_mem_of_balance_neg (by omega)
        · exact hin
      obtain ⟨l, hl, hsettle⟩ := ih hin' hle
      refine ⟨l, List.mem_cons_of_mem _ hl, fun later => ?_⟩
      rw [List.cons_append, settle_cons_of_open hopen, hsettle]

/-- A part that opens a body and is balanced closes it, whatever comes later. -/
theorem exists_closes_of_balanced (line : Nat) (hzero : balance (.opens :: marks.map Prod.snd) = 0) :
    ∃ l, (l, .closes) ∈ marks ∧
      ∀ later, settle 0 false ((line, .opens) :: (marks ++ later)) = some (some l) := by
  rw [balance_cons, Mark.weight] at hzero
  have hclosed : 1 + balance (marks.map Prod.snd) ≤ 0 := by omega
  exact exists_closes_of_balance (closes_mem_of_balance_neg (by omega)) hclosed

/-! ## Before a body opens -/

/-- Closing braces before the body opens only lower the depth. -/
theorem settle_lead {lead : List (Nat × Mark)} (h : ∀ m ∈ lead.map Prod.snd, m = .closes) :
    settle depth false (lead ++ (line, .opens) :: later) = settle (depth - lead.length + 1) true later := by
  induction lead generalizing depth with
  | nil => rw [List.length_nil, Int.natCast_zero, Int.sub_zero]; rfl
  | cons first rest ih =>
    obtain ⟨l, m⟩ := first
    obtain rfl := h m List.mem_cons_self
    have hstep : settle depth false ((l, .closes) :: (rest ++ (line, .opens) :: later)) =
        settle (depth - 1) false (rest ++ (line, .opens) :: later) := rfl
    rw [List.cons_append, hstep, ih fun m hm => h m (List.mem_cons_of_mem _ hm), List.length_cons]
    congr 1
    omega

/-- Where there is a body, only closing braces come before the brace that opens it. -/
theorem exists_lead (h : settle depth false marks = some ending) :
    ∃ lead line later, marks = lead ++ (line, .opens) :: later ∧ ∀ m ∈ lead.map Prod.snd, m = .closes := by
  induction marks generalizing depth with
  | nil => cases h
  | cons first rest ih =>
    obtain ⟨line, m⟩ := first
    cases m with
    | opens => exact ⟨[], line, rest, rfl, nofun⟩
    | closes =>
      obtain ⟨lead, l, later, rfl, hlead⟩ := ih (show settle (depth - 1) false rest = some ending from h)
      exact ⟨(line, .closes) :: lead, l, later, rfl, List.forall_mem_cons.mpr ⟨rfl, hlead⟩⟩
    | ends => cases h

/-! ## Where a run ends -/

/-- A body closes at a closing brace. -/
theorem mem_of_settle (h : settle depth opened marks = some (some line)) : (line, .closes) ∈ marks := by
  induction marks generalizing depth opened with
  | nil =>
    rw [settle] at h
    split at h <;> cases h
  | cons first rest ih =>
    obtain ⟨l, m⟩ := first
    cases m with
    | opens => exact List.mem_cons_of_mem _ (ih h)
    | closes =>
      rw [settle] at h
      split at h
      · cases h
        exact List.mem_cons_self
      · exact List.mem_cons_of_mem _ (ih h)
    | ends =>
      rw [settle] at h
      split at h
      · exact List.mem_cons_of_mem _ (ih h)
      · cases h

/-- One run ends no later than another: wherever that one closes, it has closed. -/
def NoLater (ending other : Option Nat) : Prop := ∀ line, other = some line → ∃ l, l ≤ line ∧ ending = some l

/-- An open body closes no later the less deep the run over its marks starts. -/
theorem settle_noLater (hle : depth ≤ outer) (hsorted : marks.Pairwise fun a b => a.1 ≤ b.1)
    (h : settle depth true marks = some ending) (hother : settle outer true marks = some other) :
    NoLater ending other := by
  induction marks generalizing depth outer with
  | nil => cases hother; exact nofun
  | cons first rest ih =>
    obtain ⟨line, m⟩ := first
    obtain ⟨hfirst, hrest⟩ := List.pairwise_cons.mp hsorted
    by_cases hclosed : m = .closes ∧ depth ≤ 1
    · obtain ⟨rfl, hdepth⟩ := hclosed
      cases (settle_closes hdepth).symm.trans h
      rintro l rfl
      refine ⟨line, ?_, rfl⟩
      rcases List.mem_cons.mp (mem_of_settle hother) with heq | hmem
      · cases heq
        exact Nat.le_refl line
      · exact hfirst _ hmem
    · have hopen : m = .closes → 1 < depth := fun hm => Int.not_le.mp fun hdepth => hclosed ⟨hm, hdepth⟩
      rw [settle_cons_of_open hopen] at h
      rw [settle_cons_of_open fun hm => Int.lt_of_lt_of_le (hopen hm) hle] at hother
      exact ih (Int.add_le_add_right hle _) hrest h hother

/-- A run that ends no later than another leads to a line no later, if its own is one of the text. -/
theorem NoLater.getD_le (h : NoLater ending other) (last : Nat) (hle : ending.getD last ≤ last) :
    ending.getD last ≤ other.getD last := by
  cases other with
  | none => exact hle
  | some line =>
    obtain ⟨l, hl, rfl⟩ := h line rfl
    exact hl

end SourceScan.BraceBody
