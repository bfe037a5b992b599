import Mathlib.Data.List.TakeWhile
import SourceScan.Proofs.Json.Steps

/-!
# Limits of the reader

A limit that the reader meets is passed by the text (`exceeds_of_read`): an integer with too many digits is
written in it, or it opens more containers than may be open at once. So a text that stays within these is
never refused for a limit, and one that the grammar derives is read.
-/

namespace SourceScan.Json

/-- The code point opens a container. -/
def opens (p : CodePoint) : Bool := p == .scalar '[' || p == .scalar '\x7b'

/-- The text passes a limit, with so many containers left that may be opened. -/
def Exceeds (depth : Nat) : Limit → CodeString → Prop
  | .digits n, text => IntegerText.maxDigits < n ∧
      ∃ ds : List Char, ds.length = n ∧ (∀ c ∈ ds, c.isDigit = true) ∧ CodeString.ofChars ds <:+: text
  | .nesting _, text => depth < text.countP opens

variable {fuel depth place place' start : Nat} {l : Limit} {t t' left : CodeString} {v : Json}

theorem Exceeds.of_suffix (h : Exceeds depth l t) (hs : t <:+ t') : Exceeds depth l t' := by
  cases l with
  | digits n =>
    obtain ⟨hn, ds, hlength, hdigits, hpart⟩ := h
    exact ⟨hn, ds, hlength, hdigits, hpart.trans hs.isInfix⟩
  | nesting c => exact Nat.lt_of_lt_of_le h (hs.sublist.countP_le)

/-- A container that is opened is one of those that may be. -/
theorem Exceeds.cons {p : CodePoint} (hp : opens p = true) (h : Exceeds depth l t) :
    Exceeds (depth + 1) l (p :: t) := by
  cases l with
  | digits n =>
    obtain ⟨hn, ds, hlength, hdigits, hpart⟩ := h
    exact ⟨hn, ds, hlength, hdigits, hpart.trans (List.suffix_cons p t).isInfix⟩
  | nesting c =>
    rw [Exceeds, List.countP_cons_of_pos hp]
    exact Nat.succ_lt_succ h

/-- A reading of a text leaves the end of it, and a limit that it meets is passed by the text. -/
def Stays {α : Type} (depth : Nat) (t : CodeString) : Reading α → Prop
  | .ok (_, _, left) => left <:+ t
  | .error (.limit l) => Exceeds depth l t
  | .error (.malformed _ _) => True

theorem Stays.of_suffix {α : Type} {r : Reading α} (h : Stays depth t r) (hs : t <:+ t') :
    Stays depth t' r := by
  match r, h with
  | .ok (_, _, left), h => exact List.IsSuffix.trans h hs
  | .error (.limit l), h => exact Exceeds.of_suffix h hs
  | .error (.malformed _ _), _ => exact trivial

theorem Stays.map {α β : Type} {r : Reading α} (f : α → β) (h : Stays depth t r) :
    Stays depth t (r.map fun x => (f x.1, x.2)) := by
  match r, h with
  | .ok (_, _, _), h => exact h
  | .error (.limit _), h => exact h
  | .error (.malformed _ _), _ => exact trivial

theorem Stays.error {α β : Type} {e : ReadError} (h : Stays depth t (.error e : Reading α)) :
    Stays depth t (.error e : Reading β) := by
  cases e with
  | malformed reason place => exact trivial
  | limit l => exact h

/-- What is read in a container that is opened stays in the text with one more that may be. -/
theorem Stays.cons {α : Type} {r : Reading α} {p : CodePoint} (hp : opens p = true) (h : Stays depth t r) :
    Stays (depth + 1) (p :: t) r := by
  match r, h with
  | .ok (_, _, left), h => exact List.IsSuffix.trans h (List.suffix_cons p t)
  | .error (.limit l), h => exact Exceeds.cons hp h
  | .error (.malformed _ _), _ => exact trivial

theorem suffix_skipSpace (place : Nat) (t : CodeString) : (skipSpace place t).2 <:+ t := by
  fun_induction skipSpace place t with
  | case1 place c rest hc ih => exact ih.trans (List.suffix_cons _ _)
  | case2 => exact List.suffix_rfl
  | case3 => exact List.suffix_rfl

/-! ## Strings -/

theorem suffix_of_hexQuad? {n : Nat} (h : hexQuad? t = some (n, left)) : left <:+ t := by
  unfold hexQuad? at h
  split at h
  · next a b c d rest =>
    simp only [Option.bind_eq_bind, Option.bind_eq_some_iff, Option.pure_def, Option.some.injEq,
      Prod.mk.injEq] at h
    obtain ⟨_, _, _, _, _, _, _, _, _, rfl⟩ := h
    exact ⟨[.scalar a, .scalar b, .scalar c, .scalar d], rfl⟩
  · cases h

theorem suffix_of_lowHalf {low : Nat} (h : lowHalf t = .present low left) : left <:+ t := by
  unfold lowHalf at h
  split at h
  · next rest =>
    split at h
    · cases h
    · split at h
      · cases h
      · next hquad =>
        split at h
        · cases h
          exact (suffix_of_hexQuad? hquad).trans ⟨[.scalar '\\', .scalar 'u'], rfl⟩
        · cases h
  · cases h

theorem suffix_cons_cons (p q : CodePoint) (t : CodeString) : t <:+ p :: q :: t := ⟨[p, q], rfl⟩

theorem stays_readString (depth start fuel place : Nat) (t done : CodeString) :
    Stays depth t (readString start fuel place t done) := by
  fun_induction readString start fuel place t done with
  | case1 | case2 | case5 | case7 | case9 | case12 | case14 => exact trivial
  | case4 => exact List.suffix_cons _ _
  | case3 _ _ _ _ _ ih => exact ih.of_suffix (List.suffix_cons _ _)
  | case6 _ _ _ _ _ _ _ _ ih => exact ih.of_suffix (List.suffix_cons _ _)
  | case8 _ _ _ _ _ _ _ _ _ _ _ hquad _ _ ih =>
    exact ih.of_suffix ((suffix_of_hexQuad? hquad).trans (suffix_cons_cons _ _ _))
  | case10 _ _ _ _ _ _ _ _ _ _ _ hquad _ _ _ hlow _ ih =>
    exact ih.of_suffix ((suffix_of_lowHalf hlow).trans
      ((suffix_of_hexQuad? hquad).trans (suffix_cons_cons _ _ _)))
  | case11 _ _ _ _ _ _ _ _ _ _ _ hquad _ ih =>
    exact ih.of_suffix ((suffix_of_hexQuad? hquad).trans (suffix_cons_cons _ _ _))
  | case13 _ _ _ _ _ _ _ _ _ _ _ _ ih => exact ih.of_suffix (suffix_cons_cons _ _ _)

/-! ## Numbers -/

/-- A number that is refused for a limit holds too many digits. -/
theorem digits_of_readNumber {cs : List Char} (h : readNumber place cs = .error (.limit l)) :
    ∃ ds : List Char, l = .digits ds.length ∧ IntegerText.maxDigits < ds.length ∧ (∀ c ∈ ds, c.isDigit = true) ∧
      ds <:+: cs := by
  have hsign : (splitSign cs).2 <:+ cs := by
    unfold splitSign
    split
    · exact List.suffix_cons _ _
    · exact List.suffix_rfl
  have hwhole : (∀ c ∈ wholePart (splitSign cs).2, c.isDigit = true) ∧
      wholePart (splitSign cs).2 <+: (splitSign cs).2 := by
    unfold wholePart
    split
    · next heq =>
      refine ⟨fun c hc => ?_, ?_⟩
      · rw [List.mem_singleton.mp hc]
        decide
      · rw [heq]
        exact ⟨_, rfl⟩
    · exact ⟨fun c hc => List.mem_takeWhile_imp hc, List.takeWhile_prefix _⟩
  refine ⟨wholePart (splitSign cs).2, ?_⟩
  rw [readNumber_eq] at h
  split at h
  · cases h
  · simp only [numberOf] at h
    split at h
    · split at h
      · next hlimit =>
        cases h
        exact ⟨rfl, hlimit, hwhole.1, hwhole.2.isInfix.trans hsign.isInfix⟩
      · cases h
    · cases h

theorem ofChars_filterMap_char? {f : Char → Bool} (h : ∀ p ∈ t, p.char?.any f = true) :
    CodeString.ofChars (t.filterMap CodePoint.char?) = t := by
  induction t with
  | nil => rfl
  | cons p t ih =>
    have hrest := ih fun q hq => h q (List.mem_cons_of_mem p hq)
    cases p with
    | scalar c => exact congrArg (CodePoint.scalar c :: ·) hrest
    | lone n => exact absurd (h (.lone n) List.mem_cons_self) Bool.false_ne_true

theorem stays_readAtom (depth place : Nat) (t : CodeString) : Stays depth t (readAtom place t) := by
  rw [readAtom]
  split
  · exact List.drop_suffix _ _
  · cases h : readNumber place (numberPart t) with
    | ok r => exact List.drop_suffix _ _
    | error e =>
      cases e with
      | malformed reason p => exact trivial
      | limit l =>
        obtain ⟨ds, rfl, hcount, hdigits, hwithin⟩ := digits_of_readNumber h
        refine ⟨hcount, ds, rfl, hdigits, ?_⟩
        have hpart : CodeString.ofChars (numberPart t) <+: t := by
          rw [numberPart, ofChars_filterMap_char? (f := isNumberChar) fun p hp =>
            List.mem_takeWhile_imp (p := fun p : CodePoint => p.char?.any isNumberChar) hp]
          exact List.takeWhile_prefix _
        exact (hwithin.map CodePoint.scalar).trans hpart.isInfix

/-! ## Values -/

/-- The three readers with this much fuel stay in the text. -/
structure ReadsStay (fuel : Nat) : Prop where
  value : ∀ depth place t, Stays depth t (readValue fuel depth place t)
  items : ∀ depth place t done, Stays depth t (readItems fuel depth place t done)
  members : ∀ depth place t done, Stays depth t (readMembers fuel depth place t done)

namespace ReadsStay

theorem zero : ReadsStay 0 := by
  refine ⟨fun depth place t => ?_, fun depth place t done => ?_, fun depth place t done => ?_⟩
  · rw [readValue]
    exact trivial
  · rw [readItems]
    exact trivial
  · rw [readMembers]
    exact trivial

/-- After a sign, white space is passed over. -/
theorem suffix_of_skipSpace_eq {p : CodePoint} (h : skipSpace place t = (place', p :: left)) : left <:+ t := by
  have hsuffix := suffix_skipSpace place t
  rw [h] at hsuffix
  exact (List.suffix_cons p left).trans hsuffix

theorem value_succ (ih : ReadsStay fuel) (depth place : Nat) (t : CodeString) :
    Stays depth t (readValue (fuel + 1) depth place t) := by
  match t with
  | [] =>
    simp only [readValue]
    exact trivial
  | .lone n :: rest =>
    simp only [readValue]
    exact trivial
  | .scalar c :: rest =>
    by_cases hquote : c = '\x22'
    · rw [hquote, readValue_quote]
      exact ((stays_readString depth place (fuel + 1) (place + 1) rest []).of_suffix
        (List.suffix_cons _ _)).map _
    by_cases hbracket : c = '['
    · cases depth with
      | zero =>
        rw [hbracket, readValue_bracket_zero, Stays, Exceeds, List.countP_cons_of_pos rfl]
        exact Nat.succ_pos _
      | succ depth =>
        rw [hbracket, readValue_bracket]
        split
        · exact (List.drop_suffix _ _).trans ((suffix_skipSpace _ _).trans (List.suffix_cons _ _))
        · exact ((ih.items _ _ _ _).of_suffix (suffix_skipSpace _ _)).cons rfl
    by_cases hbrace : c = '\x7b'
    · cases depth with
      | zero =>
        rw [hbrace, readValue_brace_zero, Stays, Exceeds, List.countP_cons_of_pos rfl]
        exact Nat.succ_pos _
      | succ depth =>
        rw [hbrace, readValue_brace]
        split
        · exact (List.drop_suffix _ _).trans ((suffix_skipSpace _ _).trans (List.suffix_cons _ _))
        · exact ((ih.members _ _ _ _).of_suffix (suffix_skipSpace _ _)).cons rfl
    · rw [readValue_atom hquote hbracket hbrace]
      exact stays_readAtom depth place _

theorem items_succ (ih : ReadsStay fuel) (depth place : Nat) (t : CodeString) (done : List Json) :
    Stays depth t (readItems (fuel + 1) depth place t done) := by
  have hvalue := ih.value depth place t
  rw [readItems]
  split
  · next heq =>
    rw [heq] at hvalue
    exact hvalue
  · next v place' rest heq =>
    rw [heq] at hvalue
    have hrest : rest <:+ t := hvalue
    split
    · next hskip => exact (suffix_of_skipSpace_eq hskip).trans hrest
    · next hskip =>
      exact (ih.items _ _ _ _).of_suffix
        ((suffix_skipSpace _ _).trans ((suffix_of_skipSpace_eq hskip).trans hrest))
    · exact trivial

theorem members_succ (ih : ReadsStay fuel) (depth place : Nat) (t : CodeString) (done : Members) :
    Stays depth t (readMembers (fuel + 1) depth place t done) := by
  unfold readMembers
  split
  · next rest =>
    have hname := stays_readString depth place (fuel + 1) (place + 1) rest []
    have hquote := List.suffix_cons (CodePoint.scalar '\x22') rest
    split
    · next heq =>
      rw [heq] at hname
      exact (hname.of_suffix hquote).error
    · next name place' rest' heq =>
      rw [heq] at hname
      have hrest : rest' <:+ .scalar '\x22' :: rest := List.IsSuffix.trans hname hquote
      split
      · next p after hcolon =>
        have hspace := (suffix_skipSpace (p + 1) after).trans ((suffix_of_skipSpace_eq hcolon).trans hrest)
        have hvalue := ih.value depth (skipSpace (p + 1) after).1 (skipSpace (p + 1) after).2
        dsimp only
        split
        · next heq =>
          rw [heq] at hvalue
          exact hvalue.of_suffix hspace
        · next v place'' rest'' heq =>
          rw [heq] at hvalue
          have hleft : rest'' <:+ .scalar '\x22' :: rest := List.IsSuffix.trans hvalue hspace
          split
          · next hskip => exact (suffix_of_skipSpace_eq hskip).trans hleft
          · next hskip =>
            exact (ih.members _ _ _ _).of_suffix
              ((suffix_skipSpace _ _).trans ((suffix_of_skipSpace_eq hskip).trans hleft))
          · exact trivial
      · exact trivial
  · exact trivial

end ReadsStay

theorem readsStay (fuel : Nat) : ReadsStay fuel := by
  induction fuel with
  | zero => exact .zero
  | succ fuel ih => exact ⟨ih.value_succ, ih.items_succ, ih.members_succ⟩

/-- A limit that keeps a text from being read is one that the text passes. -/
theorem exceeds_of_read {text : CodeString} (h : read text = .error (.limit l)) :
    Exceeds maxDepth l text := by
  have hvalue := (readsStay (2 * text.length + 1)).value maxDepth (skipSpace 0 text).1 (skipSpace 0 text).2
  simp only [read] at h
  split at h
  · cases h
  · split at h
    · next heq =>
      rw [heq] at hvalue
      cases h
      exact Exceeds.of_suffix hvalue (suffix_skipSpace 0 text)
    · split at h <;> cases h

/-- A short text passes no limit. -/
theorem not_exceeds_of_length_le {text : CodeString} (h : text.length ≤ maxDepth) (l : Limit) :
    ¬Exceeds maxDepth l text := by
  cases l with
  | digits n =>
    intro ⟨hn, ds, hlength, _, hpart⟩
    have hle := hpart.length_le
    rw [CodeString.ofChars, List.length_map, hlength] at hle
    have hlimits : maxDepth ≤ IntegerText.maxDigits := by decide
    omega
  | nesting c => exact Nat.not_lt.mpr (List.countP_le_length.trans h)

end SourceScan.Json
