import SourceScan.Proofs.Json.Grammar
import SourceScan.Proofs.Text.CodeString

/-!
# The reader takes every JSON text

On a text that the grammar derives the reader comes to an end with a value, or a limit keeps it from that
(`read_of_isText`); a text is never refused for its form. Each reader is shown to leave what the grammar
leaves. For a number this needs that none of its characters comes next (`Follow`), which the signs of arrays
and objects see to.
-/

namespace SourceScan.Json

/-- A reading comes to an end with just this text left, or meets a limit. -/
def Completes {α : Type} (r : Reading α) (left : CodeString) : Prop :=
  (∃ v place, r = .ok (v, place, left)) ∨ ∃ l, r = .error (.limit l)

/-- No character of a number comes next. -/
def Follow (text : CodeString) : Prop :=
  ∀ p, text.head? = some p → p.char?.any isNumberChar = false

variable {ws t left : CodeString} {fuel depth place start : Nat} {c : Char}

/-! ## White space -/

theorem skipSpace_cons (hc : isSpace c = false) (place : Nat) (t : CodeString) :
    skipSpace place (.scalar c :: t) = (place, .scalar c :: t) := by
  rw [skipSpace, if_neg (by rw [hc]; exact Bool.false_ne_true)]

theorem skipSpace_nil (place : Nat) : skipSpace place [] = (place, []) := by
  rw [skipSpace]
  exact nofun

/-- White space is passed over. -/
theorem skipSpace_blank (h : Blank ws) (place : Nat) (t : CodeString) :
    skipSpace place (ws ++ t) = skipSpace (place + ws.length) t := by
  induction ws generalizing place with
  | nil => rfl
  | cons p ws ih =>
    obtain ⟨c, rfl, hc⟩ := h p List.mem_cons_self
    rw [List.cons_append, skipSpace, if_pos hc, ih (fun q hq => h q (List.mem_cons_of_mem _ hq)),
      List.length_cons, Nat.add_assoc, Nat.add_comm 1]

theorem skipSpace_blank_cons (h : Blank ws) (hc : isSpace c = false) (place : Nat) (t : CodeString) :
    skipSpace place (ws ++ .scalar c :: t) = (place + ws.length, .scalar c :: t) := by
  rw [skipSpace_blank h, skipSpace_cons hc]

/-- No number goes on over white space, or a sign that is none of its characters. -/
theorem follow_blank_cons (h : Blank ws) (hc : isNumberChar c = false) : Follow (ws ++ .scalar c :: t) := by
  intro p hp
  cases ws with
  | nil =>
    cases hp
    exact hc
  | cons q ws =>
    obtain ⟨d, rfl, hd⟩ := h q List.mem_cons_self
    cases hp
    simp only [isSpace, Bool.or_eq_true, beq_iff_eq] at hd
    rcases hd with ((rfl | rfl) | rfl) | rfl <;> decide

theorem follow_blank (h : Blank ws) : Follow ws := by
  intro p hp
  cases ws with
  | nil => cases hp
  | cons q ws =>
    have hfollow : Follow (q :: ws ++ [.scalar ' ']) := follow_blank_cons h rfl
    exact hfollow p hp

theorem not_isSpace_of_startsValue (h : startsValue c = true) : isSpace c = false := by
  rw [Bool.eq_false_iff]
  intro hspace
  simp only [isSpace, Bool.or_eq_true, beq_iff_eq] at hspace
  rcases hspace with ((rfl | rfl) | rfl) | rfl <;> exact absurd h (by decide)

/-! ## Strings -/

theorem hexQuad?_of_isSome {a b c d : Char} (h : ∀ x ∈ [a, b, c, d], (hexDigit? x).isSome)
    (t : CodeString) : ∃ n, hexQuad? (.scalar a :: .scalar b :: .scalar c :: .scalar d :: t) = some (n, t) := by
  simp only [List.mem_cons, List.not_mem_nil, or_false, forall_eq_or_imp, forall_eq,
    Option.isSome_iff_exists] at h
  obtain ⟨⟨a', ha⟩, ⟨b', hb⟩, ⟨c', hc⟩, ⟨d', hd⟩⟩ := h
  rw [hexQuad?, ha, hb, hc, hd]
  exact ⟨_, rfl⟩

/-- The low half after a high one is absent, or it is read with the escape that names it. -/
theorem lowHalf_of_stringTail (h : StringTail t left) :
    lowHalf t = .absent ∨ ∃ low t', lowHalf t = .present low t' ∧ StringTail t' left ∧
      t'.length < t.length := by
  cases h with
  | close => exact Or.inl rfl
  | char _ hc _ _ =>
    left
    unfold lowHalf
    split
    · next heq => exact absurd (CodePoint.scalar.inj (List.cons.inj heq).1) hc
    · rfl
  | escape he _ =>
    left
    unfold lowHalf
    split
    · next heq =>
      rw [CodePoint.scalar.inj (List.cons.inj (List.cons.inj heq).2).1] at he
      exact absurd he (by decide)
    · rfl
  | @unicode a b c d t _ hhex ht =>
    obtain ⟨n, hn⟩ := hexQuad?_of_isSome hhex t
    have hmore : t ≠ [] := List.ne_nil_of_length_pos (Nat.zero_lt_of_lt ht.length_lt)
    simp only [lowHalf, List.drop_succ_cons, List.drop_zero, List.isEmpty_eq_false_iff.mpr hmore,
      Bool.false_eq_true, if_false, hn]
    split
    · refine Or.inr ⟨n, t, rfl, ht, ?_⟩
      simp only [List.length_cons]
      omega
    · exact Or.inl rfl

/-- A string is read to its last quotation mark. -/
theorem readString_complete (start : Nat) (h : StringTail t left) (hfuel : t.length ≤ fuel) (place : Nat)
    (done : CodeString) : ∃ s place', readString start fuel place t done = .ok (s, place', left) := by
  induction fuel generalizing t place done with
  | zero =>
    have hlt := h.length_lt
    omega
  | succ fuel ih =>
    cases h with
    | close => exact ⟨_, _, rfl⟩
    | @char c t _ hquote hslash hcontrol ht =>
      rw [List.length_cons] at hfuel
      obtain ⟨s, place', hs⟩ := ih ht (by omega) (place + 1) (.scalar c :: done)
      refine ⟨s, place', ?_⟩
      unfold readString
      simp only [beq_iff_eq, hquote, Nat.not_lt.mpr hcontrol, bne_iff_ne, ne_eq, hslash, not_false_eq_true,
        if_true, if_false]
      exact hs
    | @escape e t _ he ht =>
      simp only [List.length_cons] at hfuel
      have hread := ih ht (by omega) (place + 2)
      simp only [List.mem_cons, List.not_mem_nil, or_false] at he
      rcases he with rfl | rfl | rfl | rfl | rfl | rfl | rfl | rfl <;> exact hread _
    | @unicode a b c d t _ hhex ht =>
      simp only [List.length_cons] at hfuel
      obtain ⟨high, hhigh⟩ := hexQuad?_of_isSome hhex t
      obtain ⟨p, t, rfl⟩ := List.exists_cons_of_ne_nil
        (List.ne_nil_of_length_pos (Nat.zero_lt_of_lt ht.length_lt))
      have hnext := ih ht (by simp only [List.length_cons] at hfuel ⊢; omega) (place + 6)
      unfold readString
      simp only [hhigh]
      rw [if_neg (by decide), if_neg (by decide), if_neg (by decide)]
      split
      · rcases lowHalf_of_stringTail ht with habsent | ⟨low, t', hlow, ht', hlt⟩
        · rw [habsent]
          exact hnext _
        · rw [hlow]
          exact ih ht' (by simp only [List.length_cons] at hfuel hlt; omega) (place + 12) _
      · exact hnext _

/-! ## Words and numbers -/

theorem readAtom_word {w : String} (hw : w ∈ ["null", "true", "false"]) (place : Nat) (left : CodeString) :
    ∃ v place', readAtom place (CodeString.ofString w ++ left) = .ok (v, place', left) := by
  simp only [List.mem_cons, List.not_mem_nil, or_false] at hw
  rcases hw with rfl | rfl | rfl <;> exact ⟨_, _, rfl⟩

theorem IsNumber.isNumberChar {cs : List Char} (h : IsNumber cs) : ∀ c ∈ cs, isNumberChar c = true := by
  have digit : ∀ {ds : List Char}, (∀ c ∈ ds, c.isDigit = true) → ∀ c ∈ ds, Json.isNumberChar c = true := by
    intro ds hds c hc
    rw [Json.isNumberChar, hds c hc]
    rfl
  obtain ⟨sign, whole, fraction, exponent, hsign, hwhole, hfraction, hexponent, rfl⟩ := h
  intro c hc
  simp only [List.mem_append] at hc
  rcases hc with hc | hc | hc | hc
  · rcases hsign with rfl | rfl
    · cases hc
    · rw [List.mem_singleton.mp hc]
      decide
  · rcases hwhole with rfl | ⟨⟨_, hall⟩, _⟩
    · rw [List.mem_singleton.mp hc]
      decide
    · exact digit hall c hc
  · rcases hfraction with rfl | ⟨ds, ⟨_, hall⟩, rfl⟩
    · cases hc
    · rcases List.mem_cons.mp hc with rfl | hc
      · decide
      · exact digit hall c hc
  · rcases hexponent with rfl | ⟨e, sign, ds, he, hsign, ⟨_, hall⟩, rfl⟩
    · cases hc
    · rcases List.mem_cons.mp hc with rfl | hc
      · rcases he with rfl | rfl <;> decide
      · rcases List.mem_append.mp hc with hc | hc
        · rcases hsign with rfl | rfl | rfl
          · cases hc
          · rw [List.mem_singleton.mp hc]
            decide
          · rw [List.mem_singleton.mp hc]
            decide
        · exact digit hall c hc

theorem take_words : ∀ e ∈ words, e.1.take 2 = [.scalar '-', .scalar 'I'] ∨
    e.1.take 1 ∈ "ntfNI".toList.map fun c => [.scalar c] := by
  decide

/-- No word begins as a number does. -/
theorem find?_words_of_isNumber {cs : List Char} (h : IsNumber cs) (left : CodeString) :
    (words.find? fun e => e.1.isPrefixOf (CodeString.ofChars cs ++ left)) = none := by
  obtain ⟨sign, whole, fraction, exponent, hsign, hwhole, _, _, rfl⟩ := h
  obtain ⟨c, ds, rfl, hc⟩ := hwhole.exists_digit
  refine List.find?_eq_none.mpr fun e he hprefix => ?_
  have htake := List.isPrefixOf_iff_prefix.mp hprefix
  rcases take_words e he with hminus | hword
  · have hshort := (List.take_prefix 2 e.1).trans htake
    rw [hminus] at hshort
    rcases hsign with rfl | rfl
    · rw [CodePoint.scalar.inj (List.cons_prefix_cons.mp hshort).1.symm] at hc
      exact absurd hc (by decide)
    · have hnext := (List.cons_prefix_cons.mp (List.cons_prefix_cons.mp hshort).2).1
      rw [CodePoint.scalar.inj hnext.symm] at hc
      exact absurd hc (by decide)
  · obtain ⟨x, hx, hword⟩ := List.mem_map.mp hword
    have hshort := (List.take_prefix 1 e.1).trans htake
    rw [← hword] at hshort
    rcases hsign with rfl | rfl
    · have hxc : x = c := CodePoint.scalar.inj (List.cons_prefix_cons.mp hshort).1
      have hall : "ntfNI".toList.all (!·.isDigit) = true := by decide
      have hx := List.all_eq_true.mp hall x hx
      rw [hxc, hc] at hx
      cases hx
    · have hxc : x = '-' := CodePoint.scalar.inj (List.cons_prefix_cons.mp hshort).1
      rw [hxc] at hx
      exact absurd hx (by decide)

theorem numberPart_append {cs : List Char} (h : ∀ c ∈ cs, isNumberChar c = true) (hleft : Follow left) :
    numberPart (CodeString.ofChars cs ++ left) = cs := by
  have htake : (CodeString.ofChars cs ++ left).takeWhile (fun p => p.char?.any isNumberChar) =
      CodeString.ofChars cs := by
    rw [List.takeWhile_append_of_pos]
    · cases left with
      | nil => rw [List.takeWhile_nil, List.append_nil]
      | cons p left =>
        rw [List.takeWhile_cons_of_neg (by rw [hleft p rfl]; exact Bool.false_ne_true), List.append_nil]
    · intro p hp
      obtain ⟨c, hc, rfl⟩ := List.mem_map.mp hp
      exact h c hc
  rw [numberPart, htake, CodeString.filterMap_char?_ofChars]

theorem readAtom_number {cs : List Char} (h : IsNumber cs) (hleft : Follow left) (place : Nat) :
    Completes (readAtom place (CodeString.ofChars cs ++ left)) left := by
  rw [readAtom, find?_words_of_isNumber h]
  simp only [numberPart_append h.isNumberChar hleft]
  rcases readNumber_of_isNumber place h with ⟨l, hl⟩ | ⟨v, hv⟩
  · rw [hl]
    exact Or.inr ⟨l, rfl⟩
  · rw [hv]
    refine Or.inl ⟨v, place + cs.length, ?_⟩
    have hdrop : (CodeString.ofChars cs ++ left).drop cs.length = left := by
      rw [CodeString.ofChars, List.drop_left' (List.length_map _)]
    rw [Except.map, hdrop]

/-! ## Values -/

variable {piece : Piece}

/-- Before a piece the white space is passed over, and no more. -/
theorem Begins.skipSpace (h : Begins piece t left) (hws : Blank ws) (place : Nat) :
    skipSpace place (ws ++ t) = (place + ws.length, t) := by
  obtain ⟨c, rest, rfl, hc, _⟩ := h.head
  exact skipSpace_blank_cons hws (not_isSpace_of_startsValue hc) place rest

theorem Begins.head?_ne_bracket (h : Begins piece t left) : t.head? ≠ some (.scalar ']') := by
  obtain ⟨c, rest, rfl, hc, _⟩ := h.head
  intro heq
  rw [CodePoint.scalar.inj (Option.some.inj heq)] at hc
  exact absurd hc (by decide)

theorem Begins.head?_ne_brace (h : Begins .members t left) : t.head? ≠ some (.scalar '\x7d') := by
  obtain ⟨c, rest, rfl, _, hquote⟩ := h.head
  intro heq
  rw [hquote rfl] at heq
  exact absurd (CodePoint.scalar.inj (Option.some.inj heq)) (by decide)

/-- The reader of a piece comes to an end where the piece does. -/
def Reads : Piece → CodeString → CodeString → Prop
  | .value, t, left => Follow left → ∀ fuel depth place, 2 * t.length + 1 ≤ fuel →
      Completes (readValue fuel depth place t) left
  | .items, t, left => ∀ fuel depth place done, 2 * t.length + 2 ≤ fuel →
      Completes (readItems fuel depth place t done) left
  | .members, t, left => ∀ fuel depth place done, 2 * t.length + 2 ≤ fuel →
      Completes (readMembers fuel depth place t done) left

theorem exists_succ_of_le {n : Nat} (h : n + 1 ≤ fuel) : ∃ k, fuel = k + 1 ∧ n ≤ k :=
  ⟨fuel - 1, by omega, by omega⟩

namespace Reads

theorem word {w : String} (hw : w ∈ ["null", "true", "false"]) :
    Reads .value (CodeString.ofString w ++ left) left := by
  intro _ fuel depth place hfuel
  obtain ⟨fuel, rfl, _⟩ := exists_succ_of_le hfuel
  obtain ⟨v, place', hread⟩ := readAtom_word hw place left
  refine Or.inl ⟨v, place', ?_⟩
  simp only [List.mem_cons, List.not_mem_nil, or_false] at hw
  rcases hw with rfl | rfl | rfl <;>
    exact (readValue_atom (by decide) (by decide) (by decide)).trans hread

theorem number {cs : List Char} (h : IsNumber cs) : Reads .value (CodeString.ofChars cs ++ left) left := by
  intro hleft fuel depth place hfuel
  obtain ⟨fuel, rfl, _⟩ := exists_succ_of_le hfuel
  have hatom := readAtom_number h hleft place
  obtain ⟨c, rest, rfl⟩ := List.exists_cons_of_ne_nil h.ne_nil
  have hc := h.isNumberChar c List.mem_cons_self
  have hne : ∀ d, isNumberChar d = false → c ≠ d := by
    rintro d hd rfl
    rw [hc] at hd
    cases hd
  rw [CodeString.ofChars, List.map_cons, List.cons_append,
    readValue_atom (hne _ rfl) (hne _ rfl) (hne _ rfl)]
  exact hatom

theorem string (h : StringTail t left) : Reads .value (.scalar '\x22' :: t) left := by
  intro _ fuel depth place hfuel
  obtain ⟨fuel, rfl, _⟩ := exists_succ_of_le hfuel
  rw [List.length_cons] at hfuel
  obtain ⟨s, place', hs⟩ := readString_complete place h (show t.length ≤ fuel + 1 by omega)
    (place + 1) []
  rw [readValue_quote, hs]
  exact Or.inl ⟨_, _, rfl⟩

theorem noItems (hws : Blank ws) : Reads .value (.scalar '[' :: (ws ++ .scalar ']' :: left)) left := by
  intro _ fuel depth place hfuel
  obtain ⟨fuel, rfl, _⟩ := exists_succ_of_le hfuel
  cases depth with
  | zero => exact Or.inr ⟨_, readValue_bracket_zero⟩
  | succ depth =>
    rw [readValue_bracket, skipSpace_blank_cons hws rfl]
    exact Or.inl ⟨_, _, if_pos rfl⟩

theorem array (hws : Blank ws) (h : Begins .items t left) (ih : Reads .items t left) :
    Reads .value (.scalar '[' :: (ws ++ t)) left := by
  intro _ fuel depth place hfuel
  obtain ⟨fuel, rfl, _⟩ := exists_succ_of_le hfuel
  simp only [List.length_cons, List.length_append] at hfuel
  cases depth with
  | zero => exact Or.inr ⟨_, readValue_bracket_zero⟩
  | succ depth =>
    rw [readValue_bracket, h.skipSpace hws, if_neg h.head?_ne_bracket]
    exact ih fuel depth _ [] (by omega)

theorem noMembers (hws : Blank ws) :
    Reads .value (.scalar '\x7b' :: (ws ++ .scalar '\x7d' :: left)) left := by
  intro _ fuel depth place hfuel
  obtain ⟨fuel, rfl, _⟩ := exists_succ_of_le hfuel
  cases depth with
  | zero => exact Or.inr ⟨_, readValue_brace_zero⟩
  | succ depth =>
    rw [readValue_brace, skipSpace_blank_cons hws rfl]
    exact Or.inl ⟨_, _, if_pos rfl⟩

theorem object (hws : Blank ws) (h : Begins .members t left) (ih : Reads .members t left) :
    Reads .value (.scalar '\x7b' :: (ws ++ t)) left := by
  intro _ fuel depth place hfuel
  obtain ⟨fuel, rfl, _⟩ := exists_succ_of_le hfuel
  simp only [List.length_cons, List.length_append] at hfuel
  cases depth with
  | zero => exact Or.inr ⟨_, readValue_brace_zero⟩
  | succ depth =>
    rw [readValue_brace, h.skipSpace hws, if_neg h.head?_ne_brace]
    exact ih fuel depth _ [] (by omega)

theorem lastItem (hws : Blank ws) (ih : Reads .value t (ws ++ .scalar ']' :: left)) :
    Reads .items t left := by
  intro fuel depth place done hfuel
  obtain ⟨fuel, rfl, hless⟩ := exists_succ_of_le hfuel
  rw [readItems]
  rcases ih (follow_blank_cons hws rfl) fuel depth place hless with ⟨v, place', hv⟩ | ⟨l, hl⟩
  · simp only [hv, skipSpace_blank_cons hws (rfl : isSpace ']' = false)]
    exact Or.inl ⟨_, _, rfl⟩
  · rw [hl]
    exact Or.inr ⟨l, rfl⟩

theorem item {ws₁ t₁ : CodeString} (hws : Blank ws) (hws₁ : Blank ws₁)
    (h : Begins .value t (ws ++ .scalar ',' :: (ws₁ ++ t₁))) (h' : Begins .items t₁ left)
    (ih : Reads .value t (ws ++ .scalar ',' :: (ws₁ ++ t₁))) (ih' : Reads .items t₁ left) :
    Reads .items t left := by
  intro fuel depth place done hfuel
  obtain ⟨fuel, rfl, hless⟩ := exists_succ_of_le hfuel
  have hlt := h.length_lt
  simp only [List.length_append, List.length_cons] at hlt
  rw [readItems]
  rcases ih (follow_blank_cons hws rfl) fuel depth place hless with ⟨v, place', hv⟩ | ⟨l, hl⟩
  · simp only [hv, skipSpace_blank_cons hws (rfl : isSpace ',' = false), h'.skipSpace hws₁]
    exact ih' fuel depth _ _ (by omega)
  · rw [hl]
    exact Or.inr ⟨l, rfl⟩

theorem lastMember {ws₁ ws₂ t₁ : CodeString} (hws : Blank ws) (hws₁ : Blank ws₁) (hws₂ : Blank ws₂)
    (hname : StringTail t (ws ++ .scalar ':' :: (ws₁ ++ t₁)))
    (h : Begins .value t₁ (ws₂ ++ .scalar '\x7d' :: left))
    (ih : Reads .value t₁ (ws₂ ++ .scalar '\x7d' :: left)) :
    Reads .members (.scalar '\x22' :: t) left := by
  intro fuel depth place done hfuel
  obtain ⟨fuel, rfl, _⟩ := exists_succ_of_le hfuel
  have hlt := hname.length_lt
  simp only [List.length_append, List.length_cons] at hlt hfuel
  obtain ⟨s, place', hs⟩ := readString_complete place hname (show t.length ≤ fuel + 1 by omega)
    (place + 1) []
  unfold readMembers
  simp only [hs, skipSpace_blank_cons hws (rfl : isSpace ':' = false), h.skipSpace hws₁]
  rcases ih (follow_blank_cons hws₂ rfl) fuel depth (place' + ws.length + 1 + ws₁.length)
    (by omega) with ⟨v, place'', hv⟩ | ⟨l, hl⟩
  · simp only [hv, skipSpace_blank_cons hws₂ (rfl : isSpace '\x7d' = false)]
    exact Or.inl ⟨_, _, rfl⟩
  · rw [hl]
    exact Or.inr ⟨l, rfl⟩

theorem member {ws₁ ws₂ ws₃ t₁ t₂ : CodeString} (hws : Blank ws) (hws₁ : Blank ws₁) (hws₂ : Blank ws₂)
    (hws₃ : Blank ws₃) (hname : StringTail t (ws ++ .scalar ':' :: (ws₁ ++ t₁)))
    (h : Begins .value t₁ (ws₂ ++ .scalar ',' :: (ws₃ ++ t₂))) (h' : Begins .members t₂ left)
    (ih : Reads .value t₁ (ws₂ ++ .scalar ',' :: (ws₃ ++ t₂))) (ih' : Reads .members t₂ left) :
    Reads .members (.scalar '\x22' :: t) left := by
  intro fuel depth place done hfuel
  obtain ⟨fuel, rfl, _⟩ := exists_succ_of_le hfuel
  have hlt := hname.length_lt
  have hlt' := h.length_lt
  simp only [List.length_append, List.length_cons] at hlt hlt' hfuel
  obtain ⟨s, place', hs⟩ := readString_complete place hname (show t.length ≤ fuel + 1 by omega)
    (place + 1) []
  unfold readMembers
  simp only [hs, skipSpace_blank_cons hws (rfl : isSpace ':' = false), h.skipSpace hws₁]
  rcases ih (follow_blank_cons hws₂ rfl) fuel depth (place' + ws.length + 1 + ws₁.length)
    (by omega) with ⟨v, place'', hv⟩ | ⟨l, hl⟩
  · simp only [hv, skipSpace_blank_cons hws₂ (rfl : isSpace ',' = false), h'.skipSpace hws₃]
    exact ih' fuel depth _ _ (by omega)
  · rw [hl]
    exact Or.inr ⟨l, rfl⟩

end Reads

/-- What begins with a piece is read to the end of the piece, unless the reader meets a limit. -/
theorem reads_of_begins (h : Begins piece t left) : Reads piece t left := by
  induction h with
  | word hw => exact .word hw
  | number hnumber => exact .number hnumber
  | string hs => exact .string hs
  | noItems hws => exact .noItems hws
  | array hws h ih => exact .array hws h ih
  | noMembers hws => exact .noMembers hws
  | object hws h ih => exact .object hws h ih
  | lastItem hws _ ih => exact .lastItem hws ih
  | item hws hws₁ h h' ih ih' => exact .item hws hws₁ h h' ih ih'
  | lastMember hws hws₁ hws₂ hname h ih => exact .lastMember hws hws₁ hws₂ hname h ih
  | member hws hws₁ hws₂ hws₃ hname h h' ih ih' =>
    exact .member hws hws₁ hws₂ hws₃ hname h h' ih ih'

/-! ## Whole texts -/

/-- Every text of the grammar is read, unless the reader meets a limit in it. -/
theorem read_of_isText {text : CodeString} (h : IsText text) :
    (∃ v, read text = .ok v) ∨ ∃ l, read text = .error (.limit l) := by
  obtain ⟨ws, t, left, hws, hleft, hbegins, rfl⟩ := h
  have hmark : ((ws ++ t).head? == some (.scalar '\uFEFF')) = false := by
    obtain ⟨c, rest, rfl, hc, _⟩ := hbegins.head
    rw [beq_eq_false_iff_ne]
    cases ws with
    | nil =>
      intro heq
      rw [CodePoint.scalar.inj (Option.some.inj heq)] at hc
      exact absurd hc (by decide)
    | cons p ws =>
      obtain ⟨d, rfl, hd⟩ := hws p List.mem_cons_self
      intro heq
      rw [CodePoint.scalar.inj (Option.some.inj heq)] at hd
      exact absurd hd (by decide)
  have hread := reads_of_begins hbegins (follow_blank hleft) (2 * (ws ++ t).length + 1) maxDepth
    (0 + ws.length) (by rw [List.length_append]; omega)
  have hend : ∀ place, ∃ place', skipSpace place left = (place', []) := by
    intro place
    have hskip := skipSpace_blank hleft place []
    rw [List.append_nil, skipSpace_nil] at hskip
    exact ⟨_, hskip⟩
  simp only [read, hmark, Bool.false_eq_true, if_false, hbegins.skipSpace hws]
  rcases hread with ⟨v, place, hv⟩ | ⟨l, hl⟩
  · obtain ⟨place', hskip⟩ := hend place
    rw [hv]
    simp only [hskip]
    exact Or.inl ⟨v, rfl⟩
  · rw [hl]
    exact Or.inr ⟨l, rfl⟩

/-! ## Objects -/

theorem exists_obj_of_readMembers {done : Members} {v : Json} {place' : Nat}
    (h : readMembers fuel depth place t done = .ok (v, place', left)) : ∃ ms, v = .obj ms := by
  induction fuel generalizing place t done with
  | zero =>
    rw [readMembers] at h
    cases h
  | succ fuel ih =>
    unfold readMembers at h
    split at h
    · split at h
      · cases h
      · split at h
        · dsimp only at h
          split at h
          · cases h
          · split at h
            · cases h
              exact ⟨_, rfl⟩
            · exact ih h
            · cases h
        · cases h
    · cases h

/-- A value that begins with a brace is an object. -/
theorem exists_obj_of_readValue {v : Json} {place' : Nat}
    (h : readValue fuel depth place (.scalar '\x7b' :: t) = .ok (v, place', left)) : ∃ ms, v = .obj ms := by
  cases fuel with
  | zero =>
    rw [readValue] at h
    cases h
  | succ fuel =>
    cases depth with
    | zero =>
      rw [readValue_brace_zero] at h
      cases h
    | succ depth =>
      rw [readValue_brace] at h
      split at h
      · cases h
        exact ⟨[], rfl⟩
      · exact exists_obj_of_readMembers h

/-- Every text of an object is read as one, unless the reader meets a limit in it. -/
theorem read_of_isObjectText {text : CodeString} (h : IsObjectText text) :
    (∃ ms, read text = .ok (.obj ms)) ∨ ∃ l, read text = .error (.limit l) := by
  refine (read_of_isText h.isText).imp_left fun ⟨v, hv⟩ => ?_
  obtain ⟨ws, t, left, hws, _, _, rfl⟩ := h
  have hobj : ∃ ms, v = .obj ms := by
    rw [read] at hv
    split at hv
    · cases hv
    · rw [skipSpace_blank_cons hws rfl] at hv
      dsimp only at hv
      split at hv
      · cases hv
      · next hread =>
        split at hv
        · cases hv
          exact exists_obj_of_readValue hread
        · cases hv
  obtain ⟨ms, rfl⟩ := hobj
  exact ⟨ms, hv⟩

end SourceScan.Json
