import SourceScan.Function.BraceBody

/-!
# The marks of code

Three characters count for where a body in braces ends, and only where they are code: the braces and the
semicolon (`Mark`). `lex` goes through a line and gives its marks, told what the line begins in: code, a
comment, or a template literal that an earlier line has left open (`Region`). It reads a comment mark, and a
backslash with the character that it takes, as two characters at once.

The scanner of `BraceBody` reads one character at a time and has contexts for what lies between the two of
them. Put back what it has read of them, and it agrees with `lex` character by character
(`Context.resume_cons`), so a line leads it into the context of the region that the line ends in.
-/

namespace SourceScan.BraceBody

/-- A character of code that counts for where a body ends. -/
inductive Mark
  | opens
  | closes
  | ends
  deriving Repr, DecidableEq

/-- The mark that a character of code is, if it is one. -/
def Mark.ofChar? (c : Char) : Option Mark :=
  if c == '\x7b' then some opens
  else if c == '\x7d' then some closes
  else if c == ';' then some ends
  else none

/-- What a place in a text is inside of. A comment here is one that a mark ends; one that the line ends
has no place of its own. -/
inductive Region
  | code
  | comment
  | literal (mark : Char)
  | template
  deriving Repr, DecidableEq

/-- What the next line begins in, after a line that ends in a region: a literal in quotes ends with its
line, and the others go on. -/
def Region.nextLine : Region → Region
  | literal _ => code
  | r => r

/-- The marks of a line from a place in a region on, and the region in which the next line begins. -/
def lex : Region → List Char → List Mark × Region
  | .code, '/' :: '/' :: _ => ([], .code)
  | .code, '/' :: '*' :: rest => lex .comment rest
  | .comment, '*' :: '/' :: rest => lex .code rest
  | .literal mark, '\\' :: _ :: rest => lex (.literal mark) rest
  | .template, '\\' :: _ :: rest => lex .template rest
  | .code, c :: rest =>
    if c == '\x22' || c == '\x27' then lex (.literal c) rest
    else if c == templateMark then lex .template rest
    else ((Mark.ofChar? c).toList ++ (lex .code rest).1, (lex .code rest).2)
  | .comment, _ :: rest => lex .comment rest
  | .literal mark, c :: rest => if c == mark then lex .code rest else lex (.literal mark) rest
  | .template, c :: rest => if c == templateMark then lex .code rest else lex .template rest
  | r, [] => ([], r.nextLine)

/-- The marks of lines, those of each line in a list, where the first line begins in a region. -/
def lexLines : Region → List (List Char) → List (List Mark)
  | _, [] => []
  | r, line :: rest => (lex r line).1 :: lexLines (lex r line).2 rest

/-- The marks in the code of a text from line `start` on, those of each line in a list. -/
def codeMarks (lines : List (List Char)) (start : Nat) : List (List Mark) :=
  lexLines .code (lines.drop start)

theorem length_lexLines (r : Region) (lines : List (List Char)) :
    (lexLines r lines).length = lines.length := by
  induction lines generalizing r with
  | nil => rfl
  | cons line rest ih => rw [lexLines, List.length_cons, List.length_cons, ih]

theorem length_codeMarks (lines : List (List Char)) (start : Nat) :
    (codeMarks lines start).length = lines.length - start := by
  rw [codeMarks, length_lexLines, List.length_drop]

/-! ## One character of a line -/

-- The equations of `lex` are made once here, so that none of the lemmas on them waits for another one.
attribute [local simp] lex

variable {c mark : Char} {rest : List Char}

theorem lex_code_cons (h : c ≠ '/') :
    lex .code (c :: rest) =
      if c == '\x22' || c == '\x27' then lex (.literal c) rest
      else if c == templateMark then lex .template rest
      else ((Mark.ofChar? c).toList ++ (lex .code rest).1, (lex .code rest).2) :=
  lex.eq_6 _ _ (fun _ hc _ => h hc) (fun _ hc _ => h hc)

/-- A slash that begins no comment is passed over. -/
theorem lex_code_slash (hline : c ≠ '/') (hblock : c ≠ '*') :
    lex .code ('/' :: c :: rest) = lex .code (c :: rest) := by
  rw [lex.eq_6 _ _ (fun _ _ h => hline (List.cons.inj h).1) (fun _ _ h => hblock (List.cons.inj h).1)]
  rfl

theorem lex_comment_cons (h : c ≠ '*') : lex .comment (c :: rest) = lex .comment rest :=
  lex.eq_7 _ _ (fun _ hc _ => h hc)

/-- A star that does not end the comment is passed over. -/
theorem lex_comment_star (h : c ≠ '/') :
    lex .comment ('*' :: c :: rest) = lex .comment (c :: rest) :=
  lex.eq_7 _ _ (fun _ _ hc => h (List.cons.inj hc).1)

theorem lex_literal_cons (h : c ≠ '\\') :
    lex (.literal mark) (c :: rest) =
      if c == mark then lex .code rest else lex (.literal mark) rest :=
  lex.eq_8 _ _ _ (fun _ _ hc _ => h hc)

theorem lex_template_cons (h : c ≠ '\\') :
    lex .template (c :: rest) =
      if c == templateMark then lex .code rest else lex .template rest :=
  lex.eq_9 _ _ (fun _ _ hc _ => h hc)

/-! ## The scanner in a line -/

/-- The context of the scanner in a region. -/
def Region.context : Region → Context
  | code => .code
  | comment => .blockComment
  | literal mark => .quoted mark false
  | template => .template false

namespace Context

/-- The marks of the rest of a line in a context of the scanner: what it has read of a comment mark, or of
a backslash with its character, is put back in front of the rest. -/
def resume : Context → List Char → List Mark × Region
  | code, rest => lex .code rest
  | slash, rest => lex .code ('/' :: rest)
  | lineComment, _ => ([], .code)
  | blockComment, rest => lex .comment rest
  | star, rest => lex .comment ('*' :: rest)
  | quoted mark false, rest => lex (.literal mark) rest
  | quoted mark true, rest => lex (.literal mark) ('\\' :: rest)
  | template false, rest => lex .template rest
  | template true, rest => lex .template ('\\' :: rest)

/-- The mark that the scanner takes a character for. -/
def mark? (context : Context) (c : Char) : Option Mark :=
  if context.isCode then Mark.ofChar? c else none

theorem resume_context (r : Region) : r.context.resume rest = lex r rest := by
  cases r <;> rfl

/-- At the end of a line there are no marks left, and the region is that of the scanner's context. -/
theorem resume_nil (context : Context) :
    (context.resume []).1 = [] ∧ (context.resume []).2.context = context.nextLine := by
  cases context with
  | quoted mark escaped =>
    cases escaped with
    | false => exact ⟨rfl, rfl⟩
    | true =>
      simp only [resume, lex]
      split <;> exact ⟨rfl, rfl⟩
  | template escaped => cases escaped <;> exact ⟨rfl, rfl⟩
  | _ => exact ⟨rfl, rfl⟩

/-- A character of code that begins no comment. -/
theorem lex_code_afterCode (h : c ≠ '/') :
    lex .code (c :: rest) =
      ((Mark.ofChar? c).toList ++ ((afterCode c).resume rest).1, ((afterCode c).resume rest).2) := by
  have hslash : ¬(c == '/') = true := by simpa using h
  rw [lex_code_cons h, afterCode, if_neg hslash]
  by_cases hquote : (c == '\x22' || c == '\x27') = true
  · rw [if_pos hquote, if_pos hquote]
    -- A quotation mark is no mark, whichever of the two it is.
    rcases Bool.or_eq_true_iff.mp hquote with hc | hc <;> rw [beq_iff_eq.mp hc] <;> rfl
  · rw [if_neg hquote, if_neg hquote]
    by_cases htemplate : (c == templateMark) = true
    · rw [if_pos htemplate, if_pos htemplate, beq_iff_eq.mp htemplate]
      rfl
    · rw [if_neg htemplate, if_neg htemplate]
      rfl

/-- **One step.** The first mark is what the scanner takes the next character for, if that is one, and the
others are those of the rest in its next context. -/
theorem resume_cons (context : Context) (c : Char) (rest : List Char) :
    context.resume (c :: rest) =
      ((context.mark? c).toList ++ ((context.next c).resume rest).1,
        ((context.next c).resume rest).2) := by
  cases context with
  | code =>
    by_cases h : c = '/'
    · subst h
      rfl
    · exact lex_code_afterCode h
  | slash =>
    by_cases hline : c = '/'
    · subst hline
      rfl
    · by_cases hblock : c = '*'
      · subst hblock
        rfl
      · rw [resume, lex_code_slash hline hblock, lex_code_afterCode hline, next,
          if_neg (by simpa using hline), if_neg (by simpa using hblock)]
        rfl
  | lineComment => rfl
  | blockComment =>
    by_cases h : c = '*'
    · subst h
      rfl
    · rw [resume, lex_comment_cons h, next, if_neg (by simpa using h)]
      rfl
  | star =>
    by_cases hslash : c = '/'
    · subst hslash
      rfl
    · rw [resume, lex_comment_star hslash, next, if_neg (by simpa using hslash)]
      by_cases hstar : c = '*'
      · subst hstar
        rfl
      · rw [lex_comment_cons hstar, if_neg (by simpa using hstar)]
        rfl
  | quoted mark escaped =>
    cases escaped with
    | true => rfl
    | false =>
      by_cases h : c = '\\'
      · subst h
        rfl
      · have hback : ¬(c == '\\') = true := by simpa using h
        rw [resume, lex_literal_cons h, next, if_neg hback]
        split <;> rfl
  | template escaped =>
    cases escaped with
    | true => rfl
    | false =>
      by_cases h : c = '\\'
      · subst h
        rfl
      · have hback : ¬(c == '\\') = true := by simpa using h
        rw [resume, lex_template_cons h, next, if_neg hback]
        split <;> rfl

end Context

/-- The scanner reads a character by the mark that it takes it for. -/
theorem State.read_eq (s : State) (c : Char) :
    s.read c =
      match s.context.mark? c with
      | none => .more { s with context := s.context.next c }
      | some .opens => .more ⟨s.depth + 1, true, s.context.next c⟩
      | some .closes =>
        if s.opened && s.depth - 1 ≤ 0 then .closes
        else .more ⟨s.depth - 1, s.opened, s.context.next c⟩
      | some .ends =>
        if s.opened then .more { s with context := s.context.next c } else .declares := by
  unfold State.read Context.mark? Mark.ofChar?
  cases s.context.isCode with
  | false => rfl
  | true =>
    simp only [if_true]
    by_cases hopens : (c == '\x7b') = true
    · rw [if_pos hopens, if_pos hopens]
    · rw [if_neg hopens, if_neg hopens]
      by_cases hcloses : (c == '\x7d') = true
      · rw [if_pos hcloses, if_pos hcloses]
      · rw [if_neg hcloses, if_neg hcloses]
        by_cases hends : (c == ';') = true
        · rw [if_pos hends, hends, Bool.true_and]
          cases s.opened <;> rfl
        · rw [if_neg hends, Bool.eq_false_iff.mpr hends, Bool.false_and]
          rfl

end SourceScan.BraceBody
