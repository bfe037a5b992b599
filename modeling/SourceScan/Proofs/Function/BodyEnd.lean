import SourceScan.Proofs.Function.CodeMarks

/-!
# Where a body ends, in two steps

The scanner of `BraceBody` finds the end of a body in one pass: it lexes, counts braces and may stop at any
character. Here the end is said in two steps. First the text is lexed to the end, and nothing of it is kept
but the marks of its code with the indices of their lines (`numbered`, `codeMarks`). Then the end is read off
the marks alone (`bodyEnd?`): there is none if no brace opens or a semicolon comes before the first that does
(`declares`); otherwise it is at the first closing brace after that one with which as many were closed, from
the first mark on, as were opened (`closesAt`), or on the last line if there is no such brace.

Both give the same (`endLine?_eq`). The pass is first cut off from the text, line by line (`settle`,
`scanLine_settle`); that it then agrees with the counts is an induction on the marks to come, over any marks
that came before (`settle_eq`). So the end depends on the marks of each line, and comments and literals may
hold what they like (`marks_determine_endLine`).
-/

namespace SourceScan.BraceBody

/-- The marks one after the other, each with the index of its line; that of the first line is `start`. -/
def numbered (start : Nat) (marks : List (List Mark)) : List (Nat × Mark) :=
  (marks.zipIdx start).flatMap fun (onLine, line) => onLine.map (line, ·)

theorem numbered_cons (start : Nat) (onLine : List Mark) (marks : List (List Mark)) :
    numbered start (onLine :: marks) = onLine.map (start, ·) ++ numbered (start + 1) marks := rfl

/-! ## The end among the marks -/

/-- There is no body: no brace opens, or a semicolon comes before the first that does. -/
def declares (marks : List Mark) : Bool :=
  !marks.contains .opens || (marks.takeWhile (· != .opens)).contains .ends

/-- The mark at a place closes the body: it is a closing brace after an opening one, and with it at least
as many were closed, from the first mark on, as were opened. -/
def closesAt (marks : List Mark) (place : Nat) : Bool :=
  marks[place]? == some .closes && (marks.take place).contains .opens &&
    decide ((marks.take (place + 1)).count .opens ≤ (marks.take (place + 1)).count .closes)

/-- The line of the first mark that closes the body. -/
def closingLine? (marks : List (Nat × Mark)) : Option Nat :=
  (marks.zipIdx.find? fun (_, place) => closesAt (marks.map Prod.snd) place).map fun (m, _) => m.1

/-- The line on which the body ends, from the marks of a text whose last line is `last`. -/
def bodyEnd? (marks : List (Nat × Mark)) (last : Nat) : Option Nat :=
  if declares (marks.map Prod.snd) then none else some ((closingLine? marks).getD last)

/-! ## One pass over the marks -/

/-- What the scanner makes of the marks: the line on which the body closes, `some none` if it does not,
and `none` if there is no body. -/
def settle (depth : Int) (opened : Bool) : List (Nat × Mark) → Option (Option Nat)
  | [] => if opened then some none else none
  | (_, .opens) :: rest => settle (depth + 1) true rest
  | (line, .closes) :: rest =>
    if opened && depth - 1 ≤ 0 then some (some line) else settle (depth - 1) opened rest
  | (_, .ends) :: rest => if opened then settle depth opened rest else none

/-- A line does to the scanner what its marks do, whatever comes later. -/
theorem scanLine_settle (s : State) (line : List Char) (n : Nat) (later : List (Nat × Mark)) :
    let marks := (s.context.resume line).1.map (n, ·)
    match scanLine s line with
    | .more next =>
      next.context = (s.context.resume line).2.context ∧
        settle s.depth s.opened (marks ++ later) = settle next.depth next.opened later
    | .closes => settle s.depth s.opened (marks ++ later) = some (some n)
    | .declares => settle s.depth s.opened (marks ++ later) = none := by
  induction line generalizing s with
  | nil =>
    obtain ⟨hmarks, hcontext⟩ := s.context.resume_nil
    rw [scanLine, hmarks]
    exact ⟨hcontext.symm, rfl⟩
  | cons c rest ih =>
    rw [scanLine, State.read_eq, Context.resume_cons]
    cases s.context.mark? c with
    | none => exact ih { s with context := s.context.next c }
    | some m =>
      simp only [Option.toList_some, List.map_cons, List.cons_append]
      cases m with
      | opens => exact ih ⟨s.depth + 1, true, s.context.next c⟩
      | closes =>
        by_cases hclosed : (s.opened && decide (s.depth - 1 ≤ 0)) = true
        · simp only [settle, if_pos hclosed]
        · simp only [settle, if_neg hclosed]
          exact ih ⟨s.depth - 1, s.opened, s.context.next c⟩
      | ends =>
        by_cases hopened : s.opened = true
        · simp only [settle, if_pos hopened]
          exact ih { s with context := s.context.next c }
        · simp only [settle, if_neg hopened]

/-- The lines lead the scanner to the end that their marks lead to. Once a brace was met there is a line
behind. -/
theorem endFrom_settle {depth : Int} {opened : Bool} {r : Region} {lines : List (List Char)}
    {passed : Nat} (start : Nat) (hopened : opened = true → 0 < passed) :
    (endFrom ⟨depth, opened, r.context⟩ passed lines).map (start + ·) =
      (settle depth opened (numbered (start + passed) (lexLines r lines))).map
        (·.getD (start + passed + lines.length - 1)) := by
  induction lines generalizing depth opened r passed with
  | nil =>
    cases opened with
    | false => rfl
    | true =>
      have hpos := hopened rfl
      have hlast : start + (passed - 1) = start + passed + 0 - 1 := by omega
      exact congrArg some hlast
  | cons line rest ih =>
    rw [endFrom, lexLines, numbered_cons]
    have hline := scanLine_settle ⟨depth, opened, r.context⟩ line (start + passed)
      (numbered (start + passed + 1) (lexLines (lex r line).2 rest))
    simp only [Context.resume_context] at hline
    cases hscan : scanLine ⟨depth, opened, r.context⟩ line with
    | more next =>
      rw [hscan] at hline
      obtain ⟨hcontext, hmarks⟩ := hline
      obtain ⟨d, o, context⟩ := next
      dsimp only at hcontext
      subst hcontext
      have hlast : start + passed + (line :: rest).length - 1 =
          start + (passed + 1) + rest.length - 1 := by
        rw [List.length_cons]
        omega
      rw [hmarks, hlast]
      exact ih fun _ => Nat.succ_pos passed
    | closes =>
      rw [hscan] at hline
      rw [hline]
      rfl
    | declares =>
      rw [hscan] at hline
      rw [hline]
      rfl

/-! ## The pass and the counts -/

variable {seen marks : List Mark} {m : Mark}

theorem declares_opens : declares (.opens :: marks) = false := rfl

theorem declares_closes : declares (.closes :: marks) = declares marks := by
  simp [declares]

theorem declares_ends : declares (.ends :: marks) = true := by
  simp [declares]

/-- Whether a mark closes the body depends on it and on those before it. -/
theorem closesAt_append_cons :
    closesAt (seen ++ m :: marks) seen.length =
      (m == .closes && seen.contains .opens &&
        decide ((seen ++ [m]).count .opens ≤ (seen ++ [m]).count .closes)) := by
  have htake : (seen ++ m :: marks).take (seen.length + 1) = seen ++ [m] := by
    rw [List.take_append, List.take_of_length_le (Nat.le_succ _)]
    simp
  rw [closesAt, htake, List.take_left, List.getElem?_append_right (Nat.le_refl _), Nat.sub_self]
  rfl

/-- The line of the first mark that closes the body, among those that come after some others. -/
def closingAfter? (seen : List Mark) (later : List (Nat × Mark)) : Option Nat :=
  ((later.zipIdx seen.length).find? fun (_, place) => closesAt (seen ++ later.map Prod.snd) place).map
    fun (m, _) => m.1

theorem closingAfter?_cons (line : Nat) (later : List (Nat × Mark)) :
    closingAfter? seen ((line, m) :: later) =
      if closesAt (seen ++ m :: later.map Prod.snd) seen.length then some line
      else closingAfter? (seen ++ [m]) later := by
  unfold closingAfter?
  rw [List.zipIdx_cons, List.find?_cons, List.map_cons]
  split
  · next h =>
    rw [if_pos h]
    rfl
  · next h =>
    rw [if_neg (by simpa using h), List.length_append, List.append_assoc]
    rfl

/-- The braces opened less those closed. -/
def balance (marks : List Mark) : Int := (marks.count .opens : Int) - marks.count .closes

theorem balance_opens : balance (seen ++ [.opens]) = balance seen + 1 := by
  simp [balance, List.count_append]
  omega

theorem balance_closes : balance (seen ++ [.closes]) = balance seen - 1 := by
  simp [balance, List.count_append]
  omega

theorem balance_ends : balance (seen ++ [.ends]) = balance seen := by
  simp [balance, List.count_append]

/-- What the scanner makes of the marks that come after some others is what the counts say, if its depth is
the balance of the others. -/
theorem settle_eq (seen : List Mark) (later : List (Nat × Mark)) :
    settle (balance seen) (seen.contains .opens) later =
      if !seen.contains .opens && declares (later.map Prod.snd) then none
      else some (closingAfter? seen later) := by
  induction later generalizing seen with
  | nil => cases hopened : seen.contains Mark.opens <;> simp [settle, declares, closingAfter?]
  | cons first later ih =>
    obtain ⟨line, m⟩ := first
    have hrest := ih (seen ++ [m])
    rw [closingAfter?_cons, closesAt_append_cons, List.map_cons]
    cases m with
    | opens =>
      have hseen : (seen ++ [Mark.opens]).contains .opens = true := by simp
      rw [balance_opens, hseen] at hrest
      rw [settle, hrest, declares_opens]
      simp
    | closes =>
      have hseen : (seen ++ [Mark.closes]).contains .opens = seen.contains .opens := by simp
      have hclosed : decide (balance seen - 1 ≤ 0) =
          decide ((seen ++ [Mark.closes]).count .opens ≤ (seen ++ [Mark.closes]).count .closes) := by
        rw [← balance_closes, balance]
        exact decide_eq_decide.mpr (by omega)
      rw [balance_closes, hseen] at hrest
      rw [settle, hrest, hclosed, declares_closes]
      cases seen.contains Mark.opens with
      | false => simp
      | true =>
        simp
        split <;> rfl
    | ends =>
      have hseen : (seen ++ [Mark.ends]).contains .opens = seen.contains .opens := by simp
      rw [balance_ends, hseen] at hrest
      rw [settle, hrest, declares_ends]
      cases seen.contains Mark.opens <;> simp

/-! ## The end in two steps -/

theorem codeMarks_of_length_le {lines : List (List Char)} {start : Nat} (h : lines.length ≤ start) :
    codeMarks lines start = [] := by
  rw [codeMarks, List.drop_of_length_le h]
  rfl

/-- The scanner makes of a text what the pass over its marks makes of them; a body that does not close runs to
the last line. -/
theorem endLine?_settle (lines : List (List Char)) (start : Nat) :
    endLine? lines start =
      (settle 0 false (numbered start (codeMarks lines start))).map (·.getD (lines.length - 1)) := by
  have hscan : endLine? lines start =
      (settle 0 false (numbered start (codeMarks lines start))).map
        (·.getD (start + (lines.drop start).length - 1)) :=
    endFrom_settle (r := .code) start nofun
  rw [hscan]
  rcases Nat.lt_or_ge start lines.length with hstart | hstart
  · have hlast : start + (lines.drop start).length - 1 = lines.length - 1 := by
      rw [List.length_drop]
      omega
    rw [hlast]
  · rw [codeMarks_of_length_le hstart]
    rfl

/-- The scanner finds the end that the marks of the code give. -/
theorem endLine?_eq (lines : List (List Char)) (start : Nat) :
    endLine? lines start = bodyEnd? (numbered start (codeMarks lines start)) (lines.length - 1) := by
  have hpass : settle 0 false (numbered start (codeMarks lines start)) =
      if declares ((numbered start (codeMarks lines start)).map Prod.snd) then none
      else some (closingLine? (numbered start (codeMarks lines start))) :=
    settle_eq [] _
  rw [endLine?_settle, hpass, bodyEnd?]
  split <;> rfl

/-- **The marks decide.** For any lines and any first line, the scanner finds the end that is read off the
marks of the code: no end if no brace opens or a semicolon comes before the first that does, and else the
line of the first closing brace after it with which as many were closed as were opened, or the last line.
So lines with the same marks, line by line, have the same end. -/
theorem marks_determine_endLine (lines : List (List Char)) (start : Nat) :
    endLine? lines start = bodyEnd? (numbered start (codeMarks lines start)) (lines.length - 1) ∧
      ∀ others : List (List Char), codeMarks others start = codeMarks lines start →
        endLine? others start = endLine? lines start := by
  refine ⟨endLine?_eq lines start, fun others hmarks => ?_⟩
  rw [endLine?_eq, endLine?_eq, hmarks]
  -- The last line is the same if there is a mark at all, and without marks it is not asked for.
  have hlength := congrArg List.length hmarks
  rw [length_codeMarks, length_codeMarks] at hlength
  rcases Nat.lt_or_ge start lines.length with hstart | hstart
  · have hlast : others.length - 1 = lines.length - 1 := by omega
    rw [hlast]
  · rw [codeMarks_of_length_le hstart]
    rfl

/-- A body with braces and a semicolon in its literals and comments. -/
def wordyBody : List (List Char) := ["f(a) \x7b".toList, "return '\x7d' // ;".toList, "\x7d".toList]

/-- A body with the same marks. -/
def bareBody : List (List Char) := ["\x7b".toList, [], "/* ; \x7d */ \x7d".toList]

/-- Two bodies with the same marks end on the same line, the last one. -/
theorem marks_determine_endLine_wordy :
    codeMarks bareBody 0 = codeMarks wordyBody 0 ∧ endLine? wordyBody 0 = some 2 ∧
      endLine? bareBody 0 = endLine? wordyBody 0 := by
  have hmarks : codeMarks bareBody 0 = codeMarks wordyBody 0 := by decide
  obtain ⟨hend, hsame⟩ := marks_determine_endLine wordyBody 0
  exact ⟨hmarks, hend.trans (by decide), hsame bareBody hmarks⟩

end SourceScan.BraceBody
