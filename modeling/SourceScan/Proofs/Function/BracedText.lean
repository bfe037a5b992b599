import SourceScan.Proofs.Function.HeaderName
import SourceScan.Proofs.Function.Nesting
import SourceScan.Proofs.Text.ChangedLine

/-!
# A function as a text of its own

A text of one function: a header line, the lines of a body, and a line with the closing brace (`functionLines`).
The body is plain, so that all of it is code, and its braces are balanced (`IsBody`).

Where it ends depends on the marks of the header line. If that opens one brace and nothing else, the function
ends with the text (`endLine?_of_opens`). If it opens and closes braces before, the function ends on the header
line (`endLine?_of_closed`). If it has no marks, the function ends where the first braces of the body close, if
there are any (`endLine?_of_bare`, `endLine?_body`).
-/

namespace SourceScan

namespace BraceBody

variable {cs ds line header : List Char} {body lines : List (List Char)} {ms : List Mark} {start last : Nat}
  {r : Region} {c : Char}

/-! ## Plain texts -/

/-- All of the text is code on one line: there is no line feed, quotation mark, backtick or slash in it. -/
def Plain (cs : List Char) : Prop := ∀ c ∈ cs, c ∉ ['\n', '/', '\x22', '\x27', templateMark]

-- The instance goes through the text; the one for all characters there are would be found first.
instance (cs : List Char) : Decidable (Plain cs) := List.decidableBAll (· ∉ _) cs

theorem Plain.append (h : Plain cs) (h' : Plain ds) : Plain (cs ++ ds) := fun c hc =>
  (List.mem_append.mp hc).elim (h c) (h' c)

/-- The marks of a text that is all code. -/
def marksOf (cs : List Char) : List Mark := cs.filterMap Mark.ofChar?

/-- In a plain text every mark counts, and code comes after it. -/
theorem lex_plain (h : Plain cs) (rest : List Char) :
    lex .code (cs ++ rest) = (marksOf cs ++ (lex .code rest).1, (lex .code rest).2) := by
  induction cs with
  | nil => rfl
  | cons c cs ih =>
    have hc := h c List.mem_cons_self
    simp only [List.mem_cons, List.not_mem_nil, or_false, not_or] at hc
    obtain ⟨_, hslash, hdouble, hsingle, htemplate⟩ := hc
    have hquote : ¬(c == '\x22' || c == '\x27') = true := by simp [hdouble, hsingle]
    have hbacktick : ¬(c == templateMark) = true := by simpa using htemplate
    rw [List.cons_append, lex_code_cons hslash, if_neg hquote, if_neg hbacktick,
      ih fun d hd => h d (List.mem_cons_of_mem c hd), marksOf, marksOf, List.filterMap_cons]
    cases Mark.ofChar? c <;> rfl

theorem lexLines_plain (h : ∀ line ∈ body, Plain line) (rest : List (List Char)) :
    lexLines .code (body ++ rest) = body.map marksOf ++ lexLines .code rest := by
  induction body with
  | nil => rfl
  | cons line body ih =>
    have hline := lex_plain (h line List.mem_cons_self) []
    rw [List.append_nil] at hline
    rw [List.cons_append, lexLines, hline, List.map_cons, List.cons_append,
      ← ih fun l hl => h l (List.mem_cons_of_mem line hl)]
    simp [lex, Region.nextLine]

/-! ## Balanced braces -/

theorem eq_semicolon_of_ends (h : Mark.ofChar? c = some .ends) : c = ';' := by
  unfold Mark.ofChar? at h
  split at h
  · cases h
  · split at h
    · cases h
    · split at h
      · next hc => exact beq_iff_eq.mp hc
      · cases h

/-- As many braces close as open, and at no place more. -/
def Balanced (cs : List Char) : Prop :=
  (∀ part, part <+: cs → part.count '\x7d' ≤ part.count '\x7b') ∧ cs.count '\x7d' = cs.count '\x7b'

instance (cs : List Char) : Decidable (Balanced cs) :=
  decidable_of_iff ((∀ k, k < cs.length + 1 → (cs.take k).count '\x7d' ≤ (cs.take k).count '\x7b') ∧
      cs.count '\x7d' = cs.count '\x7b') <| by
    refine and_congr ⟨fun h part hpart => ?_, fun h k _ => h _ (List.take_prefix k cs)⟩ Iff.rfl
    rw [List.prefix_iff_eq_take.mp hpart]
    exact h part.length (Nat.lt_succ_of_le hpart.length_le)

theorem marksOf_append (cs ds : List Char) : marksOf (cs ++ ds) = marksOf cs ++ marksOf ds :=
  List.filterMap_append

theorem marksOf_eq_nil (h : ∀ c ∈ cs, c ∉ ['\x7b', '\x7d', ';']) : marksOf cs = [] := by
  refine List.filterMap_eq_nil_iff.mpr fun c hc => ?_
  have hmark := h c hc
  simp only [List.mem_cons, List.not_mem_nil, or_false, not_or] at hmark
  simp [Mark.ofChar?, hmark]

/-- The balance of a text's marks is that of its braces. -/
theorem balance_marksOf (cs : List Char) :
    balance (marksOf cs) = (cs.count '\x7b' : Int) - cs.count '\x7d' := by
  induction cs with
  | nil => rfl
  | cons c cs ih =>
    have hfirst : balance (marksOf [c]) = (([c].count '\x7b' : Nat) : Int) - [c].count '\x7d' := by
      by_cases hopens : c = '\x7b'
      · subst hopens
        rfl
      · by_cases hcloses : c = '\x7d'
        · subst hcloses
          rfl
        · -- Any other character is no brace, and a semicolon weighs nothing.
          have hweight : balance (marksOf [c]) = 0 := by
            by_cases hends : c = ';'
            · subst hends
              rfl
            · simp [marksOf, Mark.ofChar?, hopens, hcloses, hends, balance_nil]
          rw [hweight, List.count_singleton, List.count_singleton, if_neg (by simpa using hopens),
            if_neg (by simpa using hcloses)]
          rfl
    rw [← List.singleton_append, marksOf_append, balance_append, ih, hfirst, List.count_append, List.count_append]
    omega

theorem Balanced.prefix_nonneg (h : Balanced cs) {seen : List Mark} (hseen : seen <+: marksOf cs) :
    0 ≤ balance seen := by
  obtain ⟨part, hpart, rfl⟩ := List.prefix_filterMap_iff.mp hseen
  have hle := h.1 part hpart
  rw [← marksOf, balance_marksOf]
  omega

theorem Balanced.balance_eq_zero (h : Balanced cs) : balance (marksOf cs) = 0 := by
  rw [balance_marksOf, h.2, Int.sub_self]

/-- In a balanced text an opening brace comes first, if no semicolon does. -/
theorem Balanced.exists_opens (h : Balanced cs) (hends : ';' ∉ cs) (hopens : '\x7b' ∈ cs) :
    ∃ ms, marksOf cs = .opens :: ms := by
  cases hmarks : marksOf cs with
  | nil =>
    have hmem : Mark.opens ∈ marksOf cs := List.mem_filterMap.mpr ⟨'\x7b', hopens, rfl⟩
    rw [hmarks] at hmem
    cases hmem
  | cons m ms =>
    cases m with
    | opens => exact ⟨ms, rfl⟩
    | closes =>
      have hnonneg := h.prefix_nonneg (hmarks ▸ List.cons_prefix_cons.mpr ⟨rfl, List.nil_prefix⟩ :
        [Mark.closes] <+: marksOf cs)
      exact absurd hnonneg (by decide)
    | ends =>
      have hmem : Mark.ends ∈ marksOf cs := hmarks ▸ List.mem_cons_self
      obtain ⟨c, hc, hmark⟩ := List.mem_filterMap.mp hmem
      exact absurd (eq_semicolon_of_ends hmark ▸ hc) hends

/-! ## The text of a function -/

/-- The lines of a body: all of them are code, and their braces are balanced. -/
structure IsBody (body : List (List Char)) : Prop where
  plain : ∀ line ∈ body, Plain line
  balanced : Balanced body.flatten

/-- The lines of a function: the header, the body and the closing brace. -/
def functionLines (header : List Char) (body : List (List Char)) : List (List Char) :=
  header :: (body ++ [['\x7d']])

theorem flatten_map_marksOf (body : List (List Char)) : (body.map marksOf).flatten = marksOf body.flatten := by
  rw [marksOf, List.filterMap_flatten]
  rfl

/-- The marks of the lines after the header, where code comes after the header line. -/
theorem lexLines_functionLines (hbody : IsBody body) :
    lexLines .code (body ++ [['\x7d']]) = body.map marksOf ++ [[.closes]] :=
  lexLines_plain hbody.plain [['\x7d']]

theorem numbered_codeMarks_cons (header : List Char) (lines : List (List Char)) :
    numbered 0 (codeMarks (header :: lines) 0) =
      (lex .code header).1.map (0, ·) ++ numbered 1 (lexLines (lex .code header).2 lines) := by
  rw [codeMarks, List.drop_zero, lexLines, numbered_cons]

theorem numbered_body (start : Nat) (body : List (List Char)) :
    numbered start (body.map marksOf ++ [[.closes]]) =
      numbered start (body.map marksOf) ++ [(start + body.length, .closes)] := by
  rw [numbered_append, List.length_map]
  rfl

theorem map_snd_numbered_body (start : Nat) (body : List (List Char)) :
    (numbered start (body.map marksOf)).map Prod.snd = marksOf body.flatten := by
  rw [map_snd_numbered, flatten_map_marksOf]

/-- A function whose header opens one brace ends with its text. -/
theorem endLine?_of_opens (hlex : lex .code header = ([.opens], .code)) (hbody : IsBody body) :
    endLine? (functionLines header body) 0 = some (body.length + 1) := by
  have hinside : settle 1 true (numbered 1 (body.map marksOf) ++ [(1 + body.length, .closes)]) =
      some (some (1 + body.length)) := by
    rw [settle_append_of_pos, map_snd_numbered_body, hbody.balanced.balance_eq_zero]
    · exact settle_closes (Int.le_refl 1)
    · intro seen hseen _
      rw [map_snd_numbered_body] at hseen
      have hnonneg := hbody.balanced.prefix_nonneg hseen
      omega
  have hsettle : settle 0 false (numbered 0 (codeMarks (functionLines header body) 0)) =
      some (some (1 + body.length)) := by
    rw [functionLines, numbered_codeMarks_cons, hlex, lexLines_functionLines hbody, numbered_body]
    exact hinside
  rw [endLine?_settle, hsettle, Nat.add_comm]
  rfl

/-- A function whose header line opens and closes braces before the last one it opens ends on that line. -/
theorem endLine?_of_closed (hlex : lex .code header = (marksOf cs ++ ms, r)) (hbalanced : Balanced cs)
    (hends : ';' ∉ cs) (hopens : '\x7b' ∈ cs) (lines : List (List Char)) :
    endLine? (header :: lines) 0 = some 0 := by
  obtain ⟨inner, hinner⟩ := hbalanced.exists_opens hends hopens
  have hzero : balance (.opens :: (inner.map ((0 : Nat), ·)).map Prod.snd) = 0 := by
    have hsnd : (inner.map ((0 : Nat), ·)).map Prod.snd = inner := by
      rw [List.map_map]
      exact List.map_id inner
    rw [hsnd, ← hinner]
    exact hbalanced.balance_eq_zero
  obtain ⟨l, hl, hsettle⟩ := exists_closes_of_balanced 0 hzero
  obtain ⟨_, _, heq⟩ := List.mem_map.mp hl
  cases heq
  rw [endLine?_settle, numbered_codeMarks_cons, hlex, hinner, List.cons_append, List.map_cons, List.map_append,
    List.cons_append, List.append_assoc, hsettle]
  rfl

/-- Where the header line has no marks, the end is looked for from the next line on. -/
theorem endLine?_of_bare (hlex : lex .code header = ([], .code)) (lines : List (List Char)) :
    endLine? (header :: lines) 0 = (endLine? lines 0).map (· + 1) := by
  have hnext : endLine? (header :: lines) 0 = endLine? (header :: lines) 1 := by
    rw [endLine?_settle, numbered_codeMarks_cons, hlex, endLine?_settle]
    rfl
  rw [hnext, endLine?, endLine?, Option.map_map]
  congr 1
  funext k
  show 1 + k = 0 + k + 1
  omega

/-- The closing brace after a body is not part of what the body opens: the end is in the body or nowhere. -/
theorem endLine?_body (hbody : IsBody body) : endLine? (body ++ [['\x7d']]) 0 = endLine? body 0 := by
  have hmarks : numbered 0 (codeMarks body 0) = numbered 0 (body.map marksOf) := by
    have hlex := lexLines_plain hbody.plain []
    rw [List.append_nil] at hlex
    rw [codeMarks, List.drop_zero, hlex]
    exact congrArg (numbered 0) (List.append_nil _)
  rw [endLine?_settle, endLine?_settle, hmarks, codeMarks, List.drop_zero, lexLines_functionLines hbody,
    numbered_body]
  have hsnd := map_snd_numbered_body 0 body
  cases hfirst : numbered 0 (body.map marksOf) with
  | nil => rfl
  | cons first later =>
    obtain ⟨line, m⟩ := first
    rw [hfirst, List.map_cons] at hsnd
    cases m with
    | opens =>
      have hzero := hbody.balanced.balance_eq_zero
      rw [← hsnd] at hzero
      obtain ⟨l, _, hsettle⟩ := exists_closes_of_balanced line hzero
      have halone := hsettle []
      rw [List.append_nil] at halone
      rw [List.cons_append, hsettle, halone]
      rfl
    | closes =>
      -- A balanced body does not begin with a closing brace.
      have hstarts : [Mark.closes] <+: marksOf body.flatten :=
        hsnd ▸ List.cons_prefix_cons.mpr ⟨rfl, List.nil_prefix⟩
      exact absurd (hbody.balanced.prefix_nonneg hstarts) (by decide)
    | ends => rfl

end BraceBody

namespace FunctionSpan

open BraceBody

variable {language : Language} {header : List Char} {body : List (List Char)} {f : FunctionSpan}

/-- The function whose header is the first line, in a text of one function. -/
theorem mem_ofText_functionLines (hl : language ≠ .python) (hheader : '\n' ∉ header) (hbody : IsBody body) :
    f ∈ ofText language (Text.joinLines (functionLines header body)) ∧ f.startLine = 1 ↔
      ∃ name last, headerName? language.braceHeaders header.toArray = some name ∧
        endLine? (functionLines header body) 0 = some last ∧ f = ⟨name, last + 1, 1⟩ := by
  have hlines : Text.lines (Text.joinLines (functionLines header body)) = functionLines header body := by
    refine Text.lines_joinLines (List.cons_ne_nil _ _) (List.forall_mem_cons.mpr ⟨hheader, ?_⟩)
    intro line hline hfeed
    rcases List.mem_append.mp hline with hline | hline
    · exact hbody.plain line hline _ hfeed List.mem_cons_self
    · rw [List.mem_singleton.mp hline] at hfeed
      exact absurd hfeed (by decide)
  have hfirst : (Text.lines (Text.joinLines (functionLines header body)))[0]? = some header := by
    rw [hlines]
    rfl
  rw [mem_ofText_startLine_iff hl hfirst, hlines]
  rfl

end FunctionSpan

end SourceScan
