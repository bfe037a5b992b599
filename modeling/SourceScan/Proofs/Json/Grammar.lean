import SourceScan.Proofs.Json.Number

/-!
# The grammar of JSON

`Begins` is the grammar: a text begins with a value, with the rest of an array after its bracket or with the
rest of an object after its brace, and what is left is the text after that. `IsText` and `IsObjectText` are
the texts of a value and of an object, with white space around it. Nothing is said of what a text stands
for; that is for the reader.
-/

namespace SourceScan.Json

/-- White space. -/
def Blank (ws : CodeString) : Prop := ∀ p ∈ ws, ∃ c, p = .scalar c ∧ isSpace c = true

/-- The rest of a string after its first quotation mark, and what is left after its last. -/
inductive StringTail : CodeString → CodeString → Prop
  | close (left : CodeString) : StringTail (.scalar '\x22' :: left) left
  | char {c : Char} {t left : CodeString} : c ≠ '\x22' → c ≠ '\\' → 0x20 ≤ c.toNat → StringTail t left →
      StringTail (.scalar c :: t) left
  | escape {e : Char} {t left : CodeString} : e ∈ ['\x22', '\\', '/', 'b', 'f', 'n', 'r', 't'] →
      StringTail t left → StringTail (.scalar '\\' :: .scalar e :: t) left
  | unicode {a b c d : Char} {t left : CodeString} : (∀ x ∈ [a, b, c, d], (hexDigit? x).isSome) →
      StringTail t left →
      StringTail (.scalar '\\' :: .scalar 'u' :: .scalar a :: .scalar b :: .scalar c :: .scalar d :: t) left

/-- What a text may begin with. -/
inductive Piece
  | value
  /-- The items of an array, from one of them on, and the bracket that closes it. -/
  | items
  /-- The members of an object, from one of them on, and the brace that closes it. -/
  | members

/-- A text begins with a piece, and what is left comes after it. -/
inductive Begins : Piece → CodeString → CodeString → Prop
  | word {w : String} {left : CodeString} : w ∈ ["null", "true", "false"] →
      Begins .value (CodeString.ofString w ++ left) left
  | number {cs : List Char} {left : CodeString} : IsNumber cs →
      Begins .value (CodeString.ofChars cs ++ left) left
  | string {t left : CodeString} : StringTail t left → Begins .value (.scalar '\x22' :: t) left
  | noItems {ws left : CodeString} : Blank ws →
      Begins .value (.scalar '[' :: (ws ++ .scalar ']' :: left)) left
  | array {ws t left : CodeString} : Blank ws → Begins .items t left →
      Begins .value (.scalar '[' :: (ws ++ t)) left
  | noMembers {ws left : CodeString} : Blank ws →
      Begins .value (.scalar '\x7b' :: (ws ++ .scalar '\x7d' :: left)) left
  | object {ws t left : CodeString} : Blank ws → Begins .members t left →
      Begins .value (.scalar '\x7b' :: (ws ++ t)) left
  | lastItem {ws t left : CodeString} : Blank ws → Begins .value t (ws ++ .scalar ']' :: left) →
      Begins .items t left
  | item {ws ws₁ t t₁ left : CodeString} : Blank ws → Blank ws₁ →
      Begins .value t (ws ++ .scalar ',' :: (ws₁ ++ t₁)) → Begins .items t₁ left → Begins .items t left
  | lastMember {ws ws₁ ws₂ t t₁ left : CodeString} : Blank ws → Blank ws₁ → Blank ws₂ →
      StringTail t (ws ++ .scalar ':' :: (ws₁ ++ t₁)) → Begins .value t₁ (ws₂ ++ .scalar '\x7d' :: left) →
      Begins .members (.scalar '\x22' :: t) left
  | member {ws ws₁ ws₂ ws₃ t t₁ t₂ left : CodeString} : Blank ws → Blank ws₁ → Blank ws₂ → Blank ws₃ →
      StringTail t (ws ++ .scalar ':' :: (ws₁ ++ t₁)) →
      Begins .value t₁ (ws₂ ++ .scalar ',' :: (ws₃ ++ t₂)) → Begins .members t₂ left →
      Begins .members (.scalar '\x22' :: t) left

/-- The text of a value, with white space around it. -/
def IsText (text : CodeString) : Prop :=
  ∃ ws t left, Blank ws ∧ Blank left ∧ Begins .value t left ∧ text = ws ++ t

/-- The text of an object, with white space around it. -/
def IsObjectText (text : CodeString) : Prop :=
  ∃ ws t left, Blank ws ∧ Blank left ∧ Begins .value (.scalar '\x7b' :: t) left ∧
    text = ws ++ .scalar '\x7b' :: t

variable {text ws t left : CodeString} {piece : Piece}

theorem IsObjectText.isText (h : IsObjectText text) : IsText text := by
  obtain ⟨ws, t, left, hws, hleft, hbegins, htext⟩ := h
  exact ⟨ws, _, left, hws, hleft, hbegins, htext⟩

/-- What a value may begin with. -/
def startsValue (c : Char) : Bool := c.isDigit || "-\x22[\x7bntf".toList.contains c

/-- A piece begins with what a value may begin with, and members with a quotation mark. -/
theorem Begins.head (h : Begins piece t left) :
    ∃ c rest, t = .scalar c :: rest ∧ startsValue c = true ∧ (piece = .members → c = '\x22') := by
  induction h with
  | @word w left hw =>
    simp only [List.mem_cons, List.not_mem_nil, or_false] at hw
    rcases hw with rfl | rfl | rfl <;> exact ⟨_, _, rfl, rfl, nofun⟩
  | @number cs left hnumber =>
    obtain ⟨sign, whole, fraction, exponent, hsign, hwhole, _, _, rfl⟩ := hnumber
    rcases hsign with rfl | rfl
    · obtain ⟨c, ds, rfl, hc⟩ := hwhole.exists_digit
      refine ⟨c, _, rfl, ?_, nofun⟩
      rw [startsValue, hc]
      rfl
    · exact ⟨_, _, rfl, rfl, nofun⟩
  | string | noItems | array | noMembers | object => exact ⟨_, _, rfl, rfl, nofun⟩
  | lastItem _ _ ih | item _ _ _ _ ih _ =>
    obtain ⟨c, rest, rfl, hc, _⟩ := ih
    exact ⟨c, rest, rfl, hc, nofun⟩
  | lastMember | member => exact ⟨_, _, rfl, rfl, fun _ => rfl⟩

theorem StringTail.length_lt (h : StringTail t left) : left.length < t.length := by
  induction h with
  | close => exact Nat.lt_succ_self _
  | char _ _ _ _ ih => exact Nat.lt_succ_of_lt ih
  | escape _ _ ih =>
    simp only [List.length_cons]
    omega
  | unicode _ _ ih =>
    simp only [List.length_cons]
    omega

theorem IsNumber.ne_nil {cs : List Char} (h : IsNumber cs) : cs ≠ [] := by
  obtain ⟨sign, whole, fraction, exponent, _, hwhole, _, _, rfl⟩ := h
  obtain ⟨c, ds, rfl, _⟩ := hwhole.exists_digit
  simp

/-- A piece is not empty. -/
theorem Begins.length_lt (h : Begins piece t left) : left.length < t.length := by
  induction h with
  | @word w left hw =>
    simp only [List.mem_cons, List.not_mem_nil, or_false] at hw
    rw [List.length_append]
    rcases hw with rfl | rfl | rfl <;> exact Nat.lt_add_of_pos_left (by decide)
  | @number cs left hnumber =>
    rw [List.length_append, CodeString.ofChars, List.length_map]
    exact Nat.lt_add_of_pos_left (List.length_pos_iff.mpr hnumber.ne_nil)
  | string h => exact Nat.lt_succ_of_lt h.length_lt
  | noItems | noMembers =>
    simp only [List.length_cons, List.length_append]
    omega
  | array _ _ ih | object _ _ ih =>
    simp only [List.length_cons, List.length_append]
    omega
  | lastItem _ _ ih =>
    simp only [List.length_cons, List.length_append] at ih
    omega
  | item _ _ _ _ ih ih' =>
    simp only [List.length_cons, List.length_append] at ih
    omega
  | lastMember _ _ _ hname _ ih =>
    have hlt := hname.length_lt
    simp only [List.length_cons, List.length_append] at hlt ih ⊢
    omega
  | member _ _ _ _ hname _ _ ih ih' =>
    have hlt := hname.length_lt
    simp only [List.length_cons, List.length_append] at hlt ih ⊢
    omega

/-! ## Texts of the grammar -/

theorem blank_nil : Blank [] := fun _ hp => absurd hp List.not_mem_nil

/-- A text in quotation marks, before another. -/
def quoted (s : String) (rest : List Char) : List Char := '\x22' :: (s.toList ++ '\x22' :: rest)

/-- A character that stands for itself in a string. -/
def isPlain (c : Char) : Bool := c != '\x22' && c != '\\' && 0x20 ≤ c.toNat

/-- A text of characters that stand for themselves is the text of a string. -/
theorem stringTail_quoted {cs : List Char} (h : cs.all isPlain = true) (rest : List Char) :
    StringTail (CodeString.ofChars (cs ++ '\x22' :: rest)) (CodeString.ofChars rest) := by
  induction cs with
  | nil => exact .close _
  | cons c cs ih =>
    simp only [List.all_cons, isPlain, Bool.and_eq_true, bne_iff_ne, decide_eq_true_eq] at h
    obtain ⟨⟨⟨hquote, hslash⟩, hcontrol⟩, hrest⟩ := h
    exact .char hquote hslash hcontrol (ih hrest)

/-- An object with a script and a number. -/
def numbered (script : String) (digits : List Char) : List Char :=
  '\x7b' :: quoted "scripts" (':' :: '\x7b' :: quoted "i" (':' :: quoted script ('\x7d' :: ',' ::
    quoted "n" (':' :: (digits ++ ['\x7d'])))))

theorem isObjectText_numbered {script : String} {digits : List Char}
    (hscript : script.toList.all isPlain = true) (hdigits : IsNumber digits) :
    IsObjectText (CodeString.ofChars (numbered script digits)) := by
  have hnumber : Begins .value (CodeString.ofChars (digits ++ ['\x7d'])) [.scalar '\x7d'] := by
    rw [CodeString.ofChars, List.map_append]
    exact .number hdigits
  have hlast : Begins .members (CodeString.ofChars (quoted "n" (':' :: (digits ++ ['\x7d'])))) [] :=
    .lastMember blank_nil blank_nil blank_nil (stringTail_quoted rfl _) hnumber
  have hscripts : ∀ rest, Begins .value (CodeString.ofChars ('\x7b' :: quoted "i" (':' :: quoted script
      ('\x7d' :: rest)))) (CodeString.ofChars rest) := by
    intro rest
    refine .object blank_nil (.lastMember blank_nil blank_nil blank_nil
      (stringTail_quoted rfl _) ?_)
    exact .string (stringTail_quoted hscript _)
  refine ⟨[], _, [], blank_nil, blank_nil, .object blank_nil ?_, rfl⟩
  exact .member blank_nil blank_nil blank_nil blank_nil (stringTail_quoted rfl _) (hscripts _) hlast

end SourceScan.Json
