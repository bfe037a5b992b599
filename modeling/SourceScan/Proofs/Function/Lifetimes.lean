import Mathlib.Data.Bool.AllAny
import SourceScan.Proofs.Function.BracedText

/-!
# Lifetimes in a header

A lifetime begins with an apostrophe, and the search for the end of a body takes an apostrophe for the start of
a literal or the end of one. So what comes after the first of them is in a literal, what comes after the second
is code again, and so on to the end of the line (`BraceBody.lex_quoted_append`).

The brace that opens the body counts only if the apostrophes before it are even in number. If they are odd, it
is passed over, and the first braces of the body are taken for the body, if there are any
(`FunctionSpan.lifetime_functions`).
-/

namespace SourceScan

namespace Header

open Pattern

variable {c : Char} {name lifetime params : List Char}

/-- A character of parameters and their types: of a word, a separator, a reference or a lifetime. -/
def InSignature (c : Char) : Prop := Text.isWord c = true ∨ c ∈ [' ', ':', ',', '&', '\x27']

instance (c : Char) : Decidable (InSignature c) := inferInstanceAs (Decidable (_ ∨ _))

/-- The header line of a function with a lifetime of its own, up to the brace. -/
def lifetimeSignature (name lifetime params : List Char) : List Char :=
  "fn ".toList ++ name ++ ("<'".toList ++ lifetime ++ ">(".toList ++ params ++ ") ".toList)

/-- The header line of a function with a lifetime of its own. -/
def lifetimeLine (name lifetime params : List Char) : List Char :=
  lifetimeSignature name lifetime params ++ ['\x7b']

/-- A word after the word for a function and before an angle bracket is the name. -/
theorem name?_rust (hne : name ≠ []) (hword : ∀ c ∈ name, Text.isWord c = true) (rest : List Char) :
    rust[0].name? ("fn ".toList ++ name ++ '<' :: rest).toArray = some (String.ofList name) := by
  obtain ⟨c, cs, rfl⟩ := List.exists_cons_of_ne_nil hne
  have hkeyword : Spans ("fn ".toList ++ c :: cs ++ '<' :: rest).toArray (keyword "fn") 0 3 := by
    refine ⟨2, spans_lit_iff.mpr ⟨⟨_, rfl⟩, rfl⟩, spans_atLeast_one_iff.mpr ⟨by decide, fun k hle hlt => ?_⟩⟩
    obtain rfl : k = 2 := by omega
    rfl
  refine name?_append (k := ("fn ".toList ++ c :: cs).length + 1) hne hword ?_ ?_ ?_ fun m k => not_word_of_openList
  · exact ⟨0, ⟨rfl, rfl⟩, 0, spans_run_nil _ _ _, 0, Or.inr rfl, 0, Or.inr rfl, 0, Or.inr rfl, hkeyword⟩
  · refine ⟨_, spans_run_nil _ _ _, ?_, rfl⟩
    rw [charAt_append]
    rfl
  · rintro m ⟨_, ⟨_, rfl⟩, _, hblanks, _, hpub, _, hasync, _, hunsafe, hfn⟩ hm
    have hf : ("fn ".toList ++ c :: cs ++ '<' :: rest).toArray[0]? = some 'f' := rfl
    obtain rfl := hblanks.eq_of_next hf rfl
    obtain rfl := hpub.eq_of_next hf rfl
    obtain rfl := hasync.eq_of_next hf rfl
    obtain rfl := hunsafe.eq_of_next hf rfl
    exact keyword_end_unique hfn hkeyword (not_blank_of_word hm) (not_blank_of_word (hword c List.mem_cons_self))

theorem headerName?_lifetimeLine (hne : name ≠ []) (hword : ∀ c ∈ name, Text.isWord c = true)
    (hnot : String.ofList name ∉ notNames) (lifetime params : List Char) :
    headerName? rust (lifetimeLine name lifetime params).toArray = some (String.ofList name) := by
  have hline : lifetimeLine name lifetime params = "fn ".toList ++ name ++
      '<' :: ('\x27' :: lifetime ++ ">(".toList ++ params ++ ") ".toList ++ ['\x7b']) := List.append_assoc _ _ _
  have hheaders : rust = [rust[0]] := rfl
  rw [hline, hheaders, headerName?, List.findSome?_cons, name?_rust hne hword, Option.filter_some,
    if_pos (by simpa using hnot)]

end Header

namespace BraceBody

open Header

variable {c : Char} {cs name lifetime params : List Char} {body : List (List Char)} {n : Nat}

/-- What a place in code is in after so many apostrophes: in code again after an even number of them. -/
def quoted (n : Nat) : Region := if n % 2 = 0 then .code else .literal '\x27'

theorem quoted_of_even (h : n % 2 = 0) : quoted n = .code := if_pos h

theorem quoted_of_odd (h : n % 2 = 1) : quoted n = .literal '\x27' := if_neg (by omega)

/-- A character of a line that does nothing in code nor in a literal. -/
def Quiet (c : Char) : Prop :=
  c ∉ ['\n', '/', '\\', '\x22', '\x27', templateMark, '\x7b', '\x7d', ';']

instance (c : Char) : Decidable (Quiet c) := inferInstanceAs (Decidable (_ ∉ _))

theorem lex_quoted_apostrophe (n : Nat) (rest : List Char) :
    lex (quoted n) ('\x27' :: rest) = lex (quoted (n + 1)) rest := by
  rcases Nat.mod_two_eq_zero_or_one n with heven | hodd
  · rw [quoted_of_even heven, quoted_of_odd (by omega), lex_code_cons (by decide)]
    rfl
  · rw [quoted_of_odd hodd, quoted_of_even (by omega), lex_literal_cons (by decide)]
    rfl

theorem lex_quoted_quiet (h : Quiet c) (n : Nat) (rest : List Char) :
    lex (quoted n) (c :: rest) = lex (quoted n) rest := by
  simp only [Quiet, List.mem_cons, List.not_mem_nil, or_false, not_or] at h
  obtain ⟨_, hslash, hback, hdouble, hsingle, htemplate, hopens, hcloses, hends⟩ := h
  rcases Nat.mod_two_eq_zero_or_one n with heven | hodd
  · have hmark : Mark.ofChar? c = none := by simp [Mark.ofChar?, hopens, hcloses, hends]
    rw [quoted_of_even heven, lex_code_cons hslash, if_neg (by simp [hdouble, hsingle]),
      if_neg (by simpa using htemplate), hmark]
    rfl
  · rw [quoted_of_odd hodd, lex_literal_cons hback, if_neg (by simpa using hsingle)]

/-- Only the apostrophes of such a text count. -/
theorem lex_quoted_append (h : ∀ c ∈ cs, c = '\x27' ∨ Quiet c) (n : Nat) (rest : List Char) :
    lex (quoted n) (cs ++ rest) = lex (quoted (n + cs.count '\x27')) rest := by
  induction cs generalizing n with
  | nil => rfl
  | cons c cs ih =>
    have hrest := ih fun d hd => h d (List.mem_cons_of_mem c hd)
    rw [List.cons_append]
    rcases h c List.mem_cons_self with rfl | hquiet
    · rw [lex_quoted_apostrophe, hrest, List.count_cons_self, Nat.add_right_comm, Nat.add_assoc]
    · have hne : c ≠ '\x27' := fun hc => hquiet (by simp [hc])
      rw [lex_quoted_quiet hquiet, hrest, List.count_cons_of_ne hne]

theorem quiet_of_isWord (h : Text.isWord c = true) : Quiet c := Text.not_mem_of_isWord h rfl

theorem quiet_or_apostrophe (h : InSignature c) : c = '\x27' ∨ Quiet c := by
  rcases h with hword | hmem
  · exact Or.inr (quiet_of_isWord hword)
  · simp only [List.mem_cons, List.not_mem_nil, or_false] at hmem
    rcases hmem with rfl | rfl | rfl | rfl | rfl
    all_goals decide

theorem quiet_lifetimeSignature (hname : ∀ c ∈ name, Text.isWord c = true)
    (hlifetime : ∀ c ∈ lifetime, Text.isWord c = true) (hparams : ∀ c ∈ params, InSignature c) :
    ∀ c ∈ lifetimeSignature name lifetime params, c = '\x27' ∨ Quiet c := by
  have hfn : ∀ c ∈ "fn ".toList, c = '\x27' ∨ Quiet c := List.all_iff_forall_prop.mp (by decide)
  have hopen : ∀ c ∈ "<'".toList, c = '\x27' ∨ Quiet c := List.all_iff_forall_prop.mp (by decide)
  have hmiddle : ∀ c ∈ ">(".toList, c = '\x27' ∨ Quiet c := List.all_iff_forall_prop.mp (by decide)
  have hclose : ∀ c ∈ ") ".toList, c = '\x27' ∨ Quiet c := List.all_iff_forall_prop.mp (by decide)
  have hword : ∀ cs : List Char, (∀ c ∈ cs, Text.isWord c = true) → ∀ c ∈ cs, c = '\x27' ∨ Quiet c :=
    fun _ hall c hc => Or.inr (quiet_of_isWord (hall c hc))
  unfold lifetimeSignature
  simp only [List.forall_mem_append]
  exact ⟨⟨hfn, hword name hname⟩, ⟨⟨⟨hopen, hword lifetime hlifetime⟩, hmiddle⟩,
    fun c hc => quiet_or_apostrophe (hparams c hc)⟩, hclose⟩

theorem count_apostrophe_of_isWord (h : ∀ c ∈ cs, Text.isWord c = true) : cs.count '\x27' = 0 :=
  List.count_eq_zero.mpr fun hmem => absurd (h _ hmem) (by decide)

/-- The apostrophes before the brace are that of the lifetime and those of the parameters. -/
theorem lex_lifetimeLine (hname : ∀ c ∈ name, Text.isWord c = true)
    (hlifetime : ∀ c ∈ lifetime, Text.isWord c = true) (hparams : ∀ c ∈ params, InSignature c) :
    lex .code (lifetimeLine name lifetime params) = lex (quoted (1 + params.count '\x27')) ['\x7b'] := by
  have hcount : (lifetimeSignature name lifetime params).count '\x27' = 1 + params.count '\x27' := by
    unfold lifetimeSignature
    simp only [List.count_append, count_apostrophe_of_isWord hname, count_apostrophe_of_isWord hlifetime]
    show 0 + 0 + (1 + 0 + 0 + _ + 0) = _
    omega
  have hlex := lex_quoted_append (quiet_lifetimeSignature hname hlifetime hparams) 0 ['\x7b']
  rw [hcount, Nat.zero_add] at hlex
  exact hlex

/-- Where a function with a lifetime ends. -/
theorem endLine?_lifetimeLine (hname : ∀ c ∈ name, Text.isWord c = true)
    (hlifetime : ∀ c ∈ lifetime, Text.isWord c = true) (hparams : ∀ c ∈ params, InSignature c)
    (hbody : IsBody body) :
    endLine? (functionLines (lifetimeLine name lifetime params) body) 0 =
      if params.count '\x27' % 2 = 1 then some (body.length + 1) else (endLine? body 0).map (· + 1) := by
  have hlex := lex_lifetimeLine hname hlifetime hparams
  rcases Nat.mod_two_eq_zero_or_one (params.count '\x27') with heven | hodd
  · rw [if_neg (by omega)]
    rw [quoted_of_odd (by omega)] at hlex
    rw [functionLines, endLine?_of_bare hlex, endLine?_body hbody]
  · rw [if_pos hodd]
    rw [quoted_of_even (by omega)] at hlex
    exact endLine?_of_opens hlex hbody

end BraceBody

namespace FunctionSpan

open BraceBody Header

variable {name lifetime params : List Char} {body : List (List Char)} {f : FunctionSpan}

/-- The function of a header with a lifetime, from what its apostrophes make of its brace. -/
theorem mem_ofText_lifetimeLine_iff (hne : name ≠ []) (hname : ∀ c ∈ name, Text.isWord c = true)
    (hnot : String.ofList name ∉ notNames) (hlifetime : ∀ c ∈ lifetime, Text.isWord c = true)
    (hparams : ∀ c ∈ params, InSignature c) (hbody : IsBody body) :
    f ∈ ofText .rust (Text.joinLines (functionLines (lifetimeLine name lifetime params) body)) ∧ f.startLine = 1 ↔
      if params.count '\x27' % 2 = 1 then f = ⟨String.ofList name, body.length + 2, 1⟩
      else ∃ last, endLine? body 0 = some last ∧ f = ⟨String.ofList name, last + 2, 1⟩ := by
  have hfeed : '\n' ∉ lifetimeLine name lifetime params := by
    intro hmem
    rcases List.mem_append.mp hmem with hmem | hmem
    · have hquiet := quiet_lifetimeSignature hname hlifetime hparams _ hmem
      exact absurd hquiet (by decide)
    · exact absurd hmem (by decide)
  rw [mem_ofText_functionLines (by decide) hfeed hbody, endLine?_lifetimeLine hname hlifetime hparams hbody]
  show (∃ found last, headerName? rust _ = some found ∧ _) ↔ _
  rw [headerName?_lifetimeLine hne hname hnot lifetime params]
  by_cases hodd : params.count '\x27' % 2 = 1
  · rw [if_pos hodd, if_pos hodd]
    constructor
    · rintro ⟨found, last, hfound, hlast, rfl⟩
      cases hfound
      cases hlast
      rfl
    · rintro rfl
      exact ⟨_, _, rfl, rfl, rfl⟩
  · rw [if_neg hodd, if_neg hodd]
    constructor
    · rintro ⟨found, last, hfound, hlast, rfl⟩
      cases hfound
      obtain ⟨inBody, hinBody, rfl⟩ := Option.map_eq_some_iff.mp hlast
      exact ⟨inBody, hinBody, rfl⟩
    · rintro ⟨last, hlast, rfl⟩
      exact ⟨_, _, rfl, Option.map_eq_some_iff.mpr ⟨last, hlast, rfl⟩, rfl⟩

/-- **A function with a lifetime.** Its header has a name that is not one of the other words, a lifetime, and
parameters with lifetimes of their own. If these are odd in number, the function ends with its closing brace.
If they are even, the function ends where the first braces of its body close, before its closing brace, and
where the body has no braces the function is not found. -/
theorem lifetime_functions (hne : name ≠ []) (hname : ∀ c ∈ name, Text.isWord c = true)
    (hnot : String.ofList name ∉ notNames) (hlifetime : ∀ c ∈ lifetime, Text.isWord c = true)
    (hparams : ∀ c ∈ params, InSignature c) (hbody : IsBody body) :
    let text := Text.joinLines (functionLines (lifetimeLine name lifetime params) body)
    (∀ f, f ∈ ofText .rust text ∧ f.startLine = 1 ↔
        if params.count '\x27' % 2 = 1 then f = ⟨String.ofList name, body.length + 2, 1⟩
        else ∃ last, endLine? body 0 = some last ∧ f = ⟨String.ofList name, last + 2, 1⟩) ∧
      (⟨String.ofList name, body.length + 2, 1⟩ ∈ ofText .rust text ↔ params.count '\x27' % 2 = 1) := by
  intro text
  have hfirst := fun f => mem_ofText_lifetimeLine_iff (f := f) hne hname hnot hlifetime hparams hbody
  refine ⟨hfirst, fun hmem => ?_, fun hodd => ?_⟩
  · apply Classical.byContradiction
    intro heven
    have hspan := (hfirst _).mp ⟨hmem, rfl⟩
    rw [if_neg heven] at hspan
    obtain ⟨last, hlast, heq⟩ := hspan
    -- The end is among the lines of the body, so the closing brace is not reached.
    have hlt := (endLine?_bounds hlast).2
    have hlines := congrArg FunctionSpan.lines heq
    dsimp only at hlines
    omega
  · have hspan := (hfirst ⟨String.ofList name, body.length + 2, 1⟩).mpr
    rw [if_pos hodd] at hspan
    exact (hspan rfl).1

/-- A function with a lifetime for what it takes. -/
def takingOne : List (List Char) :=
  functionLines (lifetimeLine "f".toList "a".toList "s: &'a str".toList) ["  s".toList]

/-- Its two lifetimes leave its brace in code, and it ends with its closing brace. -/
theorem lifetime_functions_takingOne : ⟨"f", 3, 1⟩ ∈ ofText .rust (Text.joinLines takingOne) := by
  have hname : ∀ c ∈ "f".toList, Text.isWord c = true := List.all_eq_true.mp rfl
  have hnot : String.ofList "f".toList ∉ notNames := by decide
  have hlifetime : ∀ c ∈ "a".toList, Text.isWord c = true := List.all_eq_true.mp rfl
  have hparams : ∀ c ∈ "s: &'a str".toList, InSignature c := List.all_iff_forall_prop.mp (by decide)
  have hbody : IsBody ["  s".toList] := ⟨by decide, by decide⟩
  exact (lifetime_functions (by decide) hname hnot hlifetime hparams hbody).2.mpr (by decide)

/-- A function with a lifetime that it does not use. -/
def takingNone : List (List Char) :=
  functionLines (lifetimeLine "f".toList "a".toList "s: &str".toList) ["  s".toList]

/-- Its one lifetime takes its brace for part of a literal, and the function is not found. -/
theorem not_found_takingNone :
    (∀ c ∈ "s: &str".toList, InSignature c) ∧ IsBody ["  s".toList] ∧
      ofText .rust (Text.joinLines takingNone) = [] := by
  have hparams : ∀ c ∈ "s: &str".toList, InSignature c := List.all_iff_forall_prop.mp (by decide)
  have hbody : IsBody ["  s".toList] := ⟨by decide, by decide⟩
  exact ⟨hparams, hbody, by decide +kernel⟩

end FunctionSpan

end SourceScan
