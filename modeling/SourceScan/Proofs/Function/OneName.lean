import SourceScan.Proofs.Pattern.Ends

/-!
# One name to a header

A line can be read as a header in several ways, but it has one name in all of them (`Language.oneName_of_mem`).
So the name that is found is the one that the line reads as (`Language.name?_eq_some_iff`).

Two things can fix the name. The choices before the name are made by the next character, and then the lead has
one end where a word begins (`oneName_of_endsOnce`). Or the name stands before the first bracket, or the first of
some other characters, in the line, and then it is the whole word there, however many modifiers and types come
before it (`oneName_of_stop`).
-/

namespace SourceScan

namespace Pattern

variable {t : Array Char} {p q : Pattern} {s after : CharSet} {i j k : Nat}

/-- Where the pattern begins come blanks, if any, and then a character of the set. -/
def meets (s : CharSet) : Pattern → Bool
  | char r => r.disjoint (.compl s)
  | seq (run .blank) q => q.meets s
  | seq (alt p empty) q => p.meets s && q.meets s
  | seq p _ => p.meets s
  | _ => false

/-- The first character from a place on that is no blank is in the set. -/
def Meets (t : Array Char) (s : CharSet) (j : Nat) : Prop :=
  ∃ m, j ≤ m ∧ (∀ k, j ≤ k → k < m → charAt t .blank k = true) ∧ charAt t s m = true

theorem Spans.meets (hp : p.meets s = true) (h : Spans t p j k) : Meets t s j := by
  fun_induction Pattern.meets s p generalizing j k with
  | case1 r =>
    refine ⟨j, Nat.le_refl j, fun m hle hlt => absurd hle (Nat.not_le_of_lt hlt), ?_⟩
    obtain ⟨hchar, _⟩ := h
    rw [charAt_eq_any] at hchar ⊢
    obtain ⟨c, hc, hin⟩ := (Option.any_eq_true _ _).mp hchar
    rw [hc]
    apply Classical.byContradiction
    intro hnot
    have hout : (CharSet.compl s).contains c = true := by
      show (!s.contains c) = true
      rw [Bool.not_eq_true']
      exact Bool.eq_false_iff.mpr hnot
    exact Bool.false_ne_true ((CharSet.not_contains_of_disjoint hp hout).symm.trans hin)
  | case2 q ih =>
    obtain ⟨n, hblanks, hrest⟩ := h
    obtain ⟨m, hle, hall, hchar⟩ := ih hp hrest
    refine ⟨m, Nat.le_trans hblanks.1 hle, fun x hx hlt => ?_, hchar⟩
    rcases Nat.lt_or_ge x n with hin | hout
    · exact hblanks.2 x hx hin
    · exact hall x hout hlt
  | case3 p q ihp ihq =>
    obtain ⟨hp, hq⟩ := Bool.and_eq_true_iff.mp hp
    obtain ⟨n, hfirst | rfl, hrest⟩ := h
    · exact ihp hp hfirst
    · exact ihq hq hrest
  | case4 p q _ _ ih =>
    obtain ⟨n, hfirst, _⟩ := h
    exact ih hp hfirst
  | case5 => cases hp

/-- Before some characters, and blanks that lead to them, comes one word at most. -/
theorem Meets.unique {j' : Nat} (h : Meets t s j) (h' : Meets t s j') (hblank : s.disjoint .blank = true)
    (hnone : ∀ m, m < j → charAt t s m = false) (hnone' : ∀ m, m < j' → charAt t s m = false)
    (hword : charAt t .word (j - 1) = true) (hword' : charAt t .word (j' - 1) = true) : j = j' := by
  obtain ⟨m, hle, hall, hchar⟩ := h
  obtain ⟨m', hle', hall', hchar'⟩ := h'
  have hfirst : ∀ {j m : Nat}, (∀ x, x < j → charAt t s x = false) →
      (∀ x, j ≤ x → x < m → charAt t .blank x = true) → ∀ x, x < m → charAt t s x = false := by
    intro j m hbefore hblanks x hx
    rcases Nat.lt_or_ge x j with hin | hout
    · exact hbefore x hin
    · exact not_charAt_of_disjoint hblank (hblanks x hout hx)
  -- Both lead to the first of these characters in the text.
  have hsame : m = m' := by
    rcases Nat.lt_trichotomy m m' with hlt | heq | hlt
    · exact absurd hchar (Bool.eq_false_iff.mp (hfirst hnone' hall' m hlt))
    · exact heq
    · exact absurd hchar' (Bool.eq_false_iff.mp (hfirst hnone hall m' hlt))
  subst hsame
  have hend : ∀ {j j' : Nat}, j' ≤ m → (∀ x, j ≤ x → x < m → charAt t .blank x = true) →
      charAt t .word (j' - 1) = true → ¬j < j' := by
    intro j j' hle hblanks hlast hlt
    have hnot := not_blank_of_word hlast
    rw [hblanks (j' - 1) (by omega) (by omega)] at hnot
    cases hnot
  exact Nat.le_antisymm (Nat.le_of_not_lt (hend hle hall' hword)) (Nat.le_of_not_lt (hend hle' hall hword'))

end Pattern

namespace Header

open Pattern CharSet

variable {h : Header} {line : Array Char} {name : String}

/-- No line reads as the header with two names. -/
def OneName (h : Header) : Prop := ∀ line a b, h.Names line a → h.Names line b → a = b

/-- The name that is found is the one that the line reads as. -/
theorem OneName.name?_eq_some_iff (hone : h.OneName) : h.name? line = some name ↔ h.Names line name := by
  constructor
  · exact names_of_name?
  · intro hnames
    cases hfound : h.name? line with
    | none => exact absurd hnames (not_names_of_name? hfound name)
    | some other => exact congrArg some (hone line other name (names_of_name? hfound) hnames)

/-- The lead has one end where a word begins, and what follows a name begins with no word character. -/
theorem oneName_of_endsOnce (hlead : EndsOnce .word h.lead)
    (htail : (h.tail.opening .blank).disjoint .word = true) (hsome : h.tail.nullable = false) : h.OneName := by
  rintro line a b ⟨i, j, k, hspans, hword, hafter, rfl⟩ ⟨i', j', k', hspans', hword', hafter', rfl⟩
  have hnot : ∀ {j k : Nat}, Spans line h.tail j k → charAt line .word j = false := by
    intro j k hspans
    obtain ⟨s, hs, hchar⟩ := Spans.charAt_first h.tail hspans (Spans.lt_of_not_nullable h.tail hspans hsome)
    unfold opening at htail
    rw [hs] at htail
    dsimp only at htail
    rw [hsome] at htail
    exact Bool.eq_false_iff.mpr (not_both_of_disjoint htail hchar)
  obtain rfl := hlead line 0 i i' hspans hspans' (charAt_of_word1 hword) (charAt_of_word1 hword')
  obtain rfl := Spans.end_unique (spans_run_of_atLeast_one hword) (spans_run_of_atLeast_one hword') (hnot hafter)
    (hnot hafter')
  rfl

/-- The name stands before the first character of a set in the line, and the lead ends outside of a word. -/
theorem oneName_of_stop (stop : CharSet) (hword : stop.disjoint .word = true) (hblank : stop.disjoint .blank = true)
    (havoids : h.lead.avoids stop = true) (hlast : h.lead.last.all (·.disjoint .word) = true)
    (hmeets : h.tail.meets stop = true) : h.OneName := by
  rintro line a b ⟨i, j, k, hlead, hname, htail, rfl⟩ ⟨i', j', k', hlead', hname', htail', rfl⟩
  have hnone : ∀ {i j : Nat}, Spans line h.lead 0 i → Spans line word1 i j →
      ∀ m, m < j → charAt line stop m = false := by
    intro i j hlead hname m hlt
    rcases Nat.lt_or_ge m i with hin | hout
    · exact hlead.not_charAt_of_avoids havoids m (Nat.zero_le m) hin
    · exact not_charAt_of_disjoint hword ((spans_atLeast_one_iff.mp hname).2 m hout hlt)
  have hletter : ∀ {i j : Nat}, Spans line word1 i j → charAt line .word (j - 1) = true := by
    intro i j hname
    obtain ⟨hlt, hall⟩ := spans_atLeast_one_iff.mp hname
    exact hall (j - 1) (by omega) (by omega)
  obtain rfl := Meets.unique (htail.meets hmeets) (htail'.meets hmeets) hblank (hnone hlead hname)
    (hnone hlead' hname') (hletter hname) (hletter hname')
  -- A lead that ended within the name would end after a word character.
  have hstart : ∀ {i i' : Nat}, Spans line h.lead 0 i' → Spans line word1 i j → Spans line word1 i' j → ¬i < i' := by
    intro i i' hlead hname hname' hlt
    obtain ⟨s, hs, hchar⟩ := Spans.charAt_last h.lead hlead (by omega)
    rw [hs] at hlast
    have hless := (spans_atLeast_one_iff.mp hname').1
    exact not_both_of_disjoint hlast hchar ((spans_atLeast_one_iff.mp hname).2 (i' - 1) (by omega) (by omega))
  obtain rfl : i = i' := Nat.le_antisymm (Nat.le_of_not_lt (hstart hlead hname' hname))
    (Nat.le_of_not_lt (hstart hlead' hname hname'))
  rfl

/-! ## The headers of each language -/

theorem oneName_python : python.OneName :=
  oneName_of_endsOnce (endsOnce_of_decided (by decide)) (by decide) rfl

theorem oneName_javascript : ∀ h ∈ javascript, h.OneName := by
  have hdeclared : javascript[0].OneName :=
    oneName_of_endsOnce (endsOnce_of_decided (by decide)) (by decide) rfl
  have hbound : javascript[1].OneName :=
    oneName_of_endsOnce (endsOnce_of_decided (by decide)) (by decide) rfl
  have hmethod : javascript[2].OneName :=
    oneName_of_stop (.single '(') (by decide) (by decide) (by decide) (by decide) (by decide)
  exact List.forall_mem_cons.mpr ⟨hdeclared, List.forall_mem_cons.mpr ⟨hbound, List.forall_mem_singleton.mpr hmethod⟩⟩

theorem oneName_typescript : ∀ h ∈ typescript, h.OneName := by
  have htyped : typescript[3].OneName :=
    oneName_of_stop (.ofString "<(") (by decide) (by decide) (by decide) (by decide) (by decide)
  exact List.forall_mem_append.mpr ⟨oneName_javascript, List.forall_mem_singleton.mpr htyped⟩

theorem oneName_go : ∀ h ∈ go, h.OneName :=
  List.forall_mem_singleton.mpr (oneName_of_endsOnce (endsOnce_of_decided (by decide)) (by decide) rfl)

/-- Blanks lead to the brackets of a visibility or, if it has none, to what comes after it. -/
theorem endsOnce_visibility {after : CharSet} (hblank : CharSet.disjoint .blank after = true)
    (hopen : after.contains '(' = false) : EndsOnce after (opt (blanks ++ brackets) ++ blanks1) := by
  have hbrackets : EndsOnce .blank brackets := endsOnce_of_decided (by decide)
  have hblanks : EndsOnce after blanks1 := endsOnce_of_avoids (Bool.and_eq_true_iff.mpr ⟨hblank, hblank⟩)
  -- Where brackets come first, what comes after the visibility does not.
  have hnot : ∀ {t : Array Char} {i j k n : Nat}, Spans t blanks i n → Spans t brackets n k →
      Spans t blanks1 i j → ¬charAt t after j = true := by
    intro t i j k n hbefore hopening hall hafter
    have hbracket : charAt t (.single '(') n = true := by
      obtain ⟨_, ⟨hchar, _⟩, _⟩ := hopening
      exact hchar
    have hplain : charAt t .blank n = false := by
      rw [charAt_eq_any, charAt_single.mp hbracket]
      rfl
    obtain rfl := hbefore.end_unique (spans_run_of_atLeast_one hall) hplain (not_charAt_of_disjoint hblank hafter)
    rw [charAt_eq_any, charAt_single.mp hbracket] at hafter
    exact Bool.false_ne_true (hopen.symm.trans hafter)
  rintro t i j j' ⟨m, hfirst, hrest⟩ ⟨m', hfirst', hrest'⟩ hj hj'
  have hstart : ∀ {m j : Nat}, Spans t blanks1 m j → charAt t .blank m = true := by
    intro m j hspans
    obtain ⟨hlt, hall⟩ := spans_atLeast_one_iff.mp hspans
    exact hall m (Nat.le_refl m) hlt
  rcases hfirst with ⟨n, hbefore, hopening⟩ | rfl
  · rcases hfirst' with ⟨n', hbefore', hopening'⟩ | rfl
    · have hm : m = m' := by
        have hseq : EndsOnce .blank (blanks ++ brackets) := EndsOnce.seq (endsOnce_of_decided (by decide)) hbrackets
        exact hseq t i m m' ⟨n, hbefore, hopening⟩ ⟨n', hbefore', hopening'⟩ (hstart hrest) (hstart hrest')
      subst hm
      exact hblanks t m j j' hrest hrest' hj hj'
    · exact absurd hj' (hnot hbefore hopening hrest')
  · rcases hfirst' with ⟨n', hbefore', hopening'⟩ | rfl
    · exact absurd hj (hnot hbefore' hopening' hrest)
    · exact hblanks t _ j j' hrest hrest' hj hj'

theorem oneName_rust : ∀ h ∈ rust, h.OneName := by
  have hrest : EndsOnce .word (inOrder [maybe "async", maybe "unsafe", keyword "fn"]) :=
    endsOnce_of_decided (by decide)
  have hvisible : EndsOnce ((inOrder [maybe "async", maybe "unsafe", keyword "fn"]).opening .word)
      (opt (inOrder [lit "pub", opt (blanks ++ brackets), blanks1])) := by
    refine EndsOnce.alt ?_ (endsOnce_of_decided rfl) (by decide)
    exact EndsOnce.seq (endsOnce_of_decided (by decide)) (endsOnce_visibility (by decide) (by decide))
  refine List.forall_mem_singleton.mpr (oneName_of_endsOnce ?_ (by decide) rfl)
  exact EndsOnce.seq (endsOnce_of_decided rfl)
    (EndsOnce.seq (endsOnce_of_decided (by decide)) (EndsOnce.seq hvisible hrest))

theorem oneName_cFamily : ∀ h ∈ cFamily, h.OneName := by
  have hworded : cFamily[0].OneName :=
    oneName_of_stop (.ofString "<(") (by decide) (by decide) (by decide) (by decide) (by decide)
  have htyped : cFamily[1].OneName :=
    oneName_of_stop (.single '(') (by decide) (by decide) (by decide) (by decide) (by decide)
  exact List.forall_mem_cons.mpr ⟨hworded, List.forall_mem_singleton.mpr htyped⟩

end Header

namespace Language

variable {l : Language} {h : Header} {line : Array Char} {name : String}

/-- **One name to a header.** -/
theorem oneName_of_mem (l : Language) (hh : h ∈ l.headers) : h.OneName := by
  cases l with
  | python => exact List.mem_singleton.mp hh ▸ Header.oneName_python
  | javascript => exact Header.oneName_javascript h hh
  | typescript => exact Header.oneName_typescript h hh
  | go => exact Header.oneName_go h hh
  | rust => exact Header.oneName_rust h hh
  | cFamily => exact Header.oneName_cFamily h hh

/-- The name that is found in a line with one of a language's headers is the one that the line reads as. -/
theorem name?_eq_some_iff (l : Language) (hh : h ∈ l.headers) : h.name? line = some name ↔ h.Names line name :=
  (l.oneName_of_mem hh).name?_eq_some_iff

end Language

end SourceScan
