import Mathlib.Data.Bool.AllAny
import SourceScan.Proofs.Function.BracedText

/-!
# Braces among the parameters

The end of a function is counted from its header line on, and so from its parameters on. Without braces among
them it ends with its closing brace. With braces, as in a pattern that takes an object apart or in a default
value, the first of them are taken for the body, and it ends on the header line
(`FunctionSpan.declared_functions`).

A name is read as a word, and a dollar sign belongs to no word. A function that has one in its name is not
found at all (`Header.headerName?_functionLine`).
-/

namespace SourceScan

namespace Header

open Pattern

variable {t : Array Char} {p : Pattern} {c d : Char} {cs name params : List Char} {i j m : Nat}

/-! ## Identifiers -/

/-- A character of an identifier: one of a word, or a dollar sign. -/
def InIdentifier (c : Char) : Prop := Text.isWord c = true ∨ c = '$'

instance (c : Char) : Decidable (InIdentifier c) := inferInstanceAs (Decidable (_ ∨ _))

/-- A name as it may be written, also where no word reads as it. -/
structure IsIdentifier (name : List Char) : Prop where
  ne_nil : name ≠ []
  chars : ∀ c ∈ name, InIdentifier c

theorem InIdentifier.ne (h : InIdentifier c) (hword : Text.isWord d = false) (hdollar : d ≠ '$') : c ≠ d := by
  rintro rfl
  rcases h with h | h
  · exact Bool.false_ne_true (hword.symm.trans h)
  · exact hdollar h

theorem InIdentifier.not_mem {ds : List Char} (h : InIdentifier c)
    (hds : (ds.any fun d => Text.isWord d || d == '$') = false) : c ∉ ds :=
  fun hmem => List.any_eq_false.mp hds c hmem (Bool.or_eq_true_iff.mpr (h.imp_right beq_iff_eq.mpr))

theorem InIdentifier.not_blank (h : InIdentifier c) : Text.isBlank c = false := by
  rcases h with h | rfl
  · apply Bool.eq_false_iff.mpr
    intro hblank
    exact Bool.false_ne_true ((Text.not_isWord_of_isBlank hblank).symm.trans h)
  · rfl

/-- Within an identifier comes nothing that begins with blanks or a bracket. -/
theorem InIdentifier.not_spans (h : InIdentifier c) (hc : t[i]? = some c)
    (hfirst : p.first.any (·.contains c) = (Text.isBlank c || c == '(')) (hp : p.nullable = false) :
    ¬Spans t p i j := by
  refine not_spans_of_next hc ?_ hp
  rw [hfirst, h.not_blank, Bool.false_or]
  exact beq_eq_false_iff_ne.mpr (h.ne rfl (by decide))

/-! ## The header line -/

/-- The header line of a function with a name and parameters. -/
def functionLine (name params : List Char) : List Char :=
  "function ".toList ++ name ++ ('(' :: params ++ ") \x7b".toList)

/-- Before an identifier, the word for a function ends with the blank after it or just before that. -/
theorem declaration_lead_end (hc : InIdentifier c)
    (h : Spans ("function ".toList ++ c :: cs).toArray javascript[0].lead 0 m) : m = 8 ∨ m = 9 := by
  obtain ⟨_, ⟨_, rfl⟩, _, hblanks, _, hexport, _, hdefault, _, hasync, i, hfunction, j, hbefore, k, hstar,
    hafter⟩ := h
  have hf : ("function ".toList ++ c :: cs).toArray[0]? = some 'f' := rfl
  have hblank : ("function ".toList ++ c :: cs).toArray[8]? = some ' ' := rfl
  have hname : ("function ".toList ++ c :: cs).toArray[9]? = some c := rfl
  obtain rfl := hblanks.eq_of_next hf rfl
  obtain rfl := hexport.eq_of_next hf rfl
  obtain rfl := hdefault.eq_of_next hf rfl
  obtain rfl := hasync.eq_of_next hf rfl
  obtain rfl : i = 8 := (spans_lit_iff.mp hfunction).2
  have hstop : charAt ("function ".toList ++ c :: cs).toArray .blank 9 = false :=
    (charAt_append "function ".toList (c :: cs)).trans hc.not_blank
  have hj : j ≤ 9 := le_of_run hbefore.2 (by decide) hstop
  have hle := hbefore.1
  -- The blank can go to either of the two runs around the star that may stand there, or to none.
  have hnostar : j = k := by
    rcases (by omega : j = 8 ∨ j = 9) with rfl | rfl
    · exact hstar.eq_of_next hblank rfl
    · exact hstar.eq_of_next hname (beq_eq_false_iff_ne.mpr (hc.ne rfl (by decide)))
  subst hnostar
  have hm : m ≤ 9 := le_of_run hafter.2 hj hstop
  have hle' := hafter.1
  omega

/-- A name that is a word is the name of its header line. -/
theorem name?_declaration (hne : name ≠ []) (hword : ∀ c ∈ name, Text.isWord c = true) :
    javascript[0].name? (functionLine name params).toArray = some (String.ofList name) := by
  obtain ⟨c, cs, rfl⟩ := List.exists_cons_of_ne_nil hne
  have hc := hword c List.mem_cons_self
  refine name?_append (k := ("function ".toList ++ c :: cs).length + 1) hne hword ?_ ?_ ?_
    fun m k => not_word_of_openCall
  · have hblank : Spans (functionLine (c :: cs) params).toArray blanks 8 9 := by
      refine ⟨by decide, fun k hle hlt => ?_⟩
      obtain rfl : k = 8 := by omega
      rfl
    have hfunction : Spans (functionLine (c :: cs) params).toArray (lit "function") 0 8 :=
      spans_lit_iff.mpr ⟨⟨_, rfl⟩, rfl⟩
    exact ⟨0, ⟨rfl, rfl⟩, 0, spans_run_nil _ _ _, 0, Or.inr rfl, 0, Or.inr rfl, 0, Or.inr rfl, 8, hfunction,
      9, hblank, 9, Or.inr rfl, spans_run_nil _ _ _⟩
  · refine ⟨_, spans_run_nil _ _ _, spans_lit_iff.mpr ⟨?_, rfl⟩⟩
    rw [List.drop_left]
    exact ⟨_, rfl⟩
  · intro m hlead hm
    rw [List.append_assoc] at hlead hm
    rcases declaration_lead_end (Or.inl hc) hlead with rfl | rfl
    · cases hm
    · rfl

/-! ## Names with a dollar sign -/

/-- A word read from within an identifier ends in it, before the dollar sign at the latest, so no bracket
follows the word. -/
theorem name?_declaration_dollar (hname : IsIdentifier name) (hdollar : '$' ∈ name) :
    javascript[0].name? (functionLine name params).toArray = none := by
  obtain ⟨before, after, rfl⟩ := List.append_of_mem hdollar
  apply name?_eq_none
  intro i j k hlead hword htail
  have hi : i = 9 := by
    obtain ⟨c, cs, hcons⟩ := List.exists_cons_of_ne_nil hname.ne_nil
    have hc := hname.chars c (hcons ▸ List.mem_cons_self)
    rw [hcons] at hlead hword
    unfold functionLine at hlead hword
    rw [List.append_assoc] at hlead hword
    rcases declaration_lead_end hc hlead with rfl | rfl
    · have hblank := charAt_of_word1 hword
      cases hblank
    · rfl
  subst hi
  obtain ⟨hlt, hall⟩ := spans_atLeast_one_iff.mp hword
  -- The word ends within the name, since it cannot go on over the dollar sign.
  have hline : functionLine (before ++ '$' :: after) params =
      "function ".toList ++ before ++ ('$' :: after ++ ('(' :: params ++ ") \x7b".toList)) := by
    unfold functionLine
    rw [← List.append_assoc "function ".toList, List.append_assoc _ ('$' :: after)]
  have hstop : charAt (functionLine (before ++ '$' :: after) params).toArray .word (9 + before.length) = false := by
    have hnext := charAt_append (s := .word) ("function ".toList ++ before)
      ('$' :: after ++ ('(' :: params ++ ") \x7b".toList))
    rw [← hline, List.length_append] at hnext
    exact hnext
  have hj : j ≤ 9 + before.length := le_of_run hall (Nat.le_add_right 9 _) hstop
  have hin : j - 9 < (before ++ '$' :: after).length := by
    rw [List.length_append, List.length_cons]
    omega
  have hnext : (functionLine (before ++ '$' :: after) params).toArray[j]? =
      some (before ++ '$' :: after)[j - 9] := by
    unfold functionLine
    rw [List.getElem?_toArray, List.append_assoc,
      List.getElem?_append_right (show "function ".toList.length ≤ j from Nat.le_of_lt hlt)]
    exact (List.getElem?_append_left hin).trans (List.getElem?_eq_getElem hin)
  exact (hname.chars _ (List.getElem_mem hin)).not_spans hnext rfl rfl htail

/-- A function declaration reads as no function bound to a name. -/
theorem name?_binding (name params : List Char) : javascript[1].name? (functionLine name params).toArray = none := by
  apply name?_eq_none
  rintro i j k ⟨_, ⟨_, rfl⟩, _, hblanks, _, hexport, _, hbinds, _⟩ _ _
  have hf : (functionLine name params).toArray[0]? = some 'f' := rfl
  obtain rfl := hblanks.eq_of_next hf rfl
  obtain rfl := hexport.eq_of_next hf rfl
  exact not_spans_of_next hf rfl rfl hbinds

/-- A function declaration reads as no method: the word for a function stands where a method has its name, and
no bracket follows. -/
theorem name?_method (hname : IsIdentifier name) : javascript[2].name? (functionLine name params).toArray = none := by
  obtain ⟨c, cs, rfl⟩ := List.exists_cons_of_ne_nil hname.ne_nil
  have hc := hname.chars c List.mem_cons_self
  apply name?_eq_none
  rintro i j k ⟨_, ⟨_, rfl⟩, _, hblanks, hmodifiers⟩ hword htail
  have hf : (functionLine (c :: cs) params).toArray[0]? = some 'f' := rfl
  have hblank : (functionLine (c :: cs) params).toArray[8]? = some ' ' := rfl
  have hfirst : (functionLine (c :: cs) params).toArray[9]? = some c := rfl
  obtain rfl := hblanks.eq_of_next hf rfl
  obtain rfl := hmodifiers.eq_of_next hf rfl
  obtain ⟨hlt, hall⟩ := spans_atLeast_one_iff.mp hword
  have hj : j ≤ 8 := le_of_run hall (by decide) rfl
  rcases Nat.lt_or_eq_of_le hj with hless | rfl
  · -- A word may be cut short, but then a letter follows it and not a bracket.
    have hletters := spans_run_append (s := .word) [] "function".toList
      (' ' :: (c :: cs) ++ ('(' :: params ++ ") \x7b".toList)) (List.all_eq_true.mp rfl)
    have hletter := hletters.2 j (Nat.zero_le j) hless
    rw [charAt_eq_any] at hletter
    obtain ⟨d, hd, hisWord⟩ := (Option.any_eq_true _ _).mp hletter
    exact InIdentifier.not_spans (Or.inl hisWord) hd rfl rfl htail
  · obtain ⟨m, hbefore, hbrackets⟩ := htail
    have hstop : charAt (functionLine (c :: cs) params).toArray .blank 9 = false :=
      (charAt_append "function ".toList _).trans hc.not_blank
    have hm : m ≤ 9 := le_of_run hbefore.2 (by decide) hstop
    have hle := hbefore.1
    rcases (by omega : m = 8 ∨ m = 9) with rfl | rfl
    · exact not_spans_of_next hblank rfl rfl hbrackets
    · exact not_spans_of_next hfirst (beq_eq_false_iff_ne.mpr (hc.ne rfl (by decide))) rfl hbrackets

/-- The name of a function declaration: the identifier, if it is a word and not one of the other words. -/
theorem headerName?_functionLine (hname : IsIdentifier name) (hnot : String.ofList name ∉ notNames)
    (params : List Char) :
    headerName? javascript (functionLine name params).toArray =
      if '$' ∈ name then none else some (String.ofList name) := by
  have hheaders : javascript = [javascript[0], javascript[1], javascript[2]] := rfl
  rw [hheaders, headerName?, List.findSome?_cons]
  by_cases hdollar : '$' ∈ name
  · rw [if_pos hdollar, name?_declaration_dollar hname hdollar]
    simp only [Option.filter_none, List.findSome?_cons, name?_binding, name?_method hname, List.findSome?_nil]
  · rw [if_neg hdollar, name?_declaration hname.ne_nil fun c hc => ?_]
    · rw [Option.filter_some, if_pos (by simpa using hnot)]
    · rcases hname.chars c hc with hword | rfl
      · exact hword
      · exact absurd hc hdollar

end Header

namespace BraceBody

open Header

variable {name params : List Char} {body : List (List Char)}

/-- A function declaration is all code if its parameters are. -/
theorem plain_functionLine (hname : IsIdentifier name) (hplain : Plain params) :
    Plain (functionLine name params) := by
  have hword : Plain "function ".toList := by decide
  have hopen : Plain ['('] := by decide
  have hclose : Plain ") \x7b".toList := by decide
  have hident : Plain name := fun c hc => (hname.chars c hc).not_mem rfl
  unfold functionLine
  exact (hword.append hident).append ((hopen.append hplain).append hclose)

/-- The marks of a function declaration are those of its parameters and the brace that opens its body. -/
theorem lex_functionLine (hname : IsIdentifier name) (hplain : Plain params) :
    lex .code (functionLine name params) = (marksOf params ++ [.opens], .code) := by
  have hlex := lex_plain (plain_functionLine hname hplain) []
  rw [List.append_nil] at hlex
  have hnone : marksOf name = [] := marksOf_eq_nil fun c hc => (hname.chars c hc).not_mem rfl
  have hmarks : marksOf (functionLine name params) = marksOf params ++ [.opens] := by
    unfold functionLine
    rw [marksOf_append, marksOf_append, hnone, ← List.singleton_append, List.append_assoc, marksOf_append,
      marksOf_append]
    rfl
  rw [hlex, hmarks]
  simp [lex, Region.nextLine]

/-- A function ends on its header line if there are braces among its parameters, and else with its closing
brace. -/
theorem endLine?_functionLine (hname : IsIdentifier name) (hplain : Plain params) (hends : ';' ∉ params)
    (hbalanced : Balanced params) (hbody : IsBody body) :
    endLine? (functionLines (functionLine name params) body) 0 =
      some (if '\x7b' ∈ params then 0 else body.length + 1) := by
  have hlex := lex_functionLine hname hplain
  by_cases hopens : '\x7b' ∈ params
  · rw [if_pos hopens]
    exact endLine?_of_closed hlex hbalanced hends hopens _
  · rw [if_neg hopens]
    have hcloses : '\x7d' ∉ params := by
      have hcount := hbalanced.2
      rw [List.count_eq_zero.mpr hopens] at hcount
      exact List.count_eq_zero.mp hcount
    have hnone : marksOf params = [] := by
      refine marksOf_eq_nil fun c hc hmark => ?_
      simp only [List.mem_cons, List.not_mem_nil, or_false] at hmark
      rcases hmark with rfl | rfl | rfl
      · exact hopens hc
      · exact hcloses hc
      · exact hends hc
    rw [hnone] at hlex
    exact endLine?_of_opens hlex hbody

end BraceBody

namespace FunctionSpan

open BraceBody Header

variable {name params : List Char} {body : List (List Char)} {f : FunctionSpan}

/-- **A function declaration.** Its name is any identifier that is not one of the other words, and its
parameters are any text that is all code, has no semicolon, and has balanced braces. If the name holds a dollar
sign, no function is found on the line. Otherwise the function of the name is, and it ends on its header line
if there are braces among the parameters and with its closing brace if there are none. -/
theorem declared_functions (hname : IsIdentifier name) (hnot : String.ofList name ∉ notNames)
    (hplain : Plain params) (hends : ';' ∉ params) (hbalanced : Balanced params) (hbody : IsBody body) :
    f ∈ ofText .javascript (Text.joinLines (functionLines (functionLine name params) body)) ∧ f.startLine = 1 ↔
      '$' ∉ name ∧ f = ⟨String.ofList name, if '\x7b' ∈ params then 1 else body.length + 2, 1⟩ := by
  have hfeed : '\n' ∉ functionLine name params := fun hmem =>
    plain_functionLine hname hplain _ hmem List.mem_cons_self
  have hheader := headerName?_functionLine hname hnot params
  have hend := endLine?_functionLine hname hplain hends hbalanced hbody
  have hspan : (if '\x7b' ∈ params then 0 else body.length + 1) + 1 =
      if '\x7b' ∈ params then 1 else body.length + 2 := by
    split <;> rfl
  rw [mem_ofText_functionLines (by decide) hfeed hbody, hend, ← hspan]
  show (∃ found last, headerName? javascript _ = some found ∧ _) ↔ _
  rw [hheader]
  by_cases hdollar : '$' ∈ name
  · rw [if_pos hdollar]
    constructor
    · rintro ⟨_, _, hfound, _⟩
      cases hfound
    · rintro ⟨hnone, _⟩
      exact absurd hdollar hnone
  · rw [if_neg hdollar]
    constructor
    · rintro ⟨found, last, hfound, hlast, rfl⟩
      cases hfound
      cases hlast
      exact ⟨hdollar, rfl⟩
    · rintro ⟨_, rfl⟩
      exact ⟨_, _, rfl, rfl, rfl⟩

/-- A function with a plain parameter and a block in its body. -/
def plainText : List (List Char) :=
  functionLines (functionLine "f".toList "a = [1]".toList) ["  if (a) \x7b".toList, "  \x7d".toList]

/-- It ends with its closing brace. -/
theorem declared_functions_plain : ⟨"f", 4, 1⟩ ∈ ofText .javascript (Text.joinLines plainText) := by
  have hname : IsIdentifier "f".toList := ⟨by decide, List.all_iff_forall_prop.mp (by decide)⟩
  have hnot : String.ofList "f".toList ∉ notNames := by decide
  have hplain : Plain "a = [1]".toList := by decide
  have hends : ';' ∉ "a = [1]".toList := by decide
  have hbalanced : Balanced "a = [1]".toList := by decide
  have hbody : IsBody ["  if (a) \x7b".toList, "  \x7d".toList] := ⟨by decide, by decide⟩
  exact ((declared_functions hname hnot hplain hends hbalanced hbody).mpr ⟨by decide, rfl⟩).1

/-- A function whose parameter is taken apart. -/
def takingApart : List (List Char) := functionLines (functionLine "f".toList "\x7ba\x7d".toList) ["  x".toList]

/-- Its one span is its header line, which holds none of its body. -/
theorem header_only_takingApart :
    Plain "\x7ba\x7d".toList ∧ Balanced "\x7ba\x7d".toList ∧ IsBody ["  x".toList] ∧
      ofText .javascript (Text.joinLines takingApart) = [⟨"f", 1, 1⟩] := by
  have hspans : ofText .javascript (Text.joinLines takingApart) = [⟨"f", 1, 1⟩] := by decide +kernel
  have hbody : IsBody ["  x".toList] := ⟨by decide, by decide⟩
  exact ⟨by decide, by decide, hbody, hspans⟩

end FunctionSpan

end SourceScan
