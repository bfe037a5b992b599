import SourceScan.Proofs.Pattern.Language

/-!
# Pieces and what is around them

`Pattern.Takes p before piece after` says that `p` spans the piece where it stands between the two other texts. It is
said part by part: of a pattern in two parts the first one has the piece of the second one after it, and the second one
has the piece of the first one before it (`takes_seq_iff`). A boundary asks for the texts at either side alone
(`takes_boundary_iff`), and a plain pattern for the piece alone (`takes_iff_describes`).

So a pattern of plain parts that words begin and end in is settled by what its parts describe
(`takes_word_iff`, `takes_inOrder_boundary_iff`), and it occurs where a text can be cut like this
(`occursIn_iff_takes`).
-/

namespace SourceScan.Pattern

variable {p q : Pattern} {ps : List Pattern} {before piece after text : List Char}

/-- The pattern spans the piece, where it has these texts before and after it. -/
def Takes (p : Pattern) (before piece after : List Char) : Prop :=
  Spans (before ++ piece ++ after).toArray p before.length (before ++ piece).length

/-- A piece of two parts is a piece of the one and then a piece of the other. -/
theorem takes_seq_iff : (seq p q).Takes before piece after ↔ ∃ first second, piece = first ++ second ∧
    p.Takes before first (second ++ after) ∧ q.Takes (before ++ first) second after := by
  unfold Takes
  constructor
  · rintro ⟨k, hfirst, hsecond⟩
    obtain ⟨n, rfl⟩ := Nat.exists_eq_add_of_le hfirst.le
    have hn : n ≤ piece.length := by
      have hle := hsecond.le
      rw [List.length_append] at hle
      omega
    have hlength : (before ++ piece.take n).length = before.length + n := by
      rw [List.length_append, List.length_take, Nat.min_eq_left hn]
    refine ⟨piece.take n, piece.drop n, (List.take_append_drop n piece).symm, ?_, ?_⟩
    · rw [hlength, List.append_assoc before, ← List.append_assoc (piece.take n), List.take_append_drop,
        ← List.append_assoc]
      exact hfirst
    · rw [hlength, List.append_assoc before, List.take_append_drop]
      exact hsecond
  · rintro ⟨first, second, rfl, hfirst, hsecond⟩
    refine ⟨(before ++ first).length, ?_, ?_⟩
    · rw [← List.append_assoc, List.append_assoc _ second]
      exact hfirst
    · rw [← List.append_assoc]
      exact hsecond

/-- A boundary is an empty piece with a word character at just one side. -/
theorem takes_boundary_iff : boundary.Takes before piece after ↔
    piece = [] ∧ Text.endsInWord before ≠ Text.beginsInWord after := by
  have hplace : before.length = (before ++ piece).length ↔ piece = [] := by
    rw [List.length_append, ← List.length_eq_zero_iff]
    omega
  unfold Takes
  show isBoundary _ _ = true ∧ _ ↔ _
  rw [hplace, and_comm]
  refine and_congr_right fun hnil => ?_
  rw [hnil, List.append_nil, isBoundary_append, bne_iff_ne]

/-- A plain pattern takes up the pieces that it describes, wherever they stand. -/
theorem takes_iff_describes (hp : p.plain = true) : p.Takes before piece after ↔ p.Describes piece := by
  unfold Takes
  rw [List.append_assoc, spans_iff_describes hp]
  constructor
  · rintro ⟨_, _, hdescribes, heq, hlength⟩
    rw [List.length_append, List.length_append, Nat.add_left_cancel_iff] at hlength
    rw [(List.append_inj heq hlength).1]
    exact hdescribes
  · exact fun hdescribes => ⟨piece, after, hdescribes, rfl, rfl⟩

/-- A pattern occurs in a text that has a piece of it between two others. -/
theorem occursIn_iff_takes : OccursIn text.toArray p ↔
    ∃ before piece after, text = before ++ piece ++ after ∧ p.Takes before piece after := by
  rw [occursIn_iff_begins]
  constructor
  · rintro ⟨before, rest, rfl, k, hspans⟩
    obtain ⟨n, rfl⟩ := Nat.exists_eq_add_of_le hspans.le
    have hn : n ≤ rest.length := by
      have hend := (Spans.bounds p hspans).2
      rw [List.size_toArray, List.length_append] at hend
      omega
    refine ⟨before, rest.take n, rest.drop n, ?_, ?_⟩
    · rw [List.append_assoc, List.take_append_drop]
    · unfold Takes
      rw [List.append_assoc, List.take_append_drop, List.length_append, List.length_take, Nat.min_eq_left hn]
      exact hspans
  · rintro ⟨before, piece, after, rfl, htakes⟩
    unfold Takes at htakes
    rw [List.append_assoc] at htakes ⊢
    exact ⟨before, piece ++ after, rfl, _, htakes⟩

/-! ## Whole words -/

/-- A word and then what the rest of the pattern takes up: no word goes on from before the word, or after it. -/
theorem takes_word_iff (hp : p.plain = true)
    (hword : ∀ word, p.Describes word → Text.beginsInWord word = true ∧ Text.endsInWord word = true) :
    (seq boundary (seq p (seq boundary q))).Takes before piece after ↔
      ∃ word rest, piece = word ++ rest ∧ p.Describes word ∧ Text.endsInWord before = false ∧
        Text.beginsInWord (rest ++ after) = false ∧ q.Takes (before ++ word) rest after := by
  have hbegins : ∀ {word rest}, p.Describes word → (Text.endsInWord before ≠ Text.beginsInWord (word ++ rest) ↔
      Text.endsInWord before = false) := by
    intro word rest hdescribes
    rw [Text.beginsInWord_append (hword word hdescribes).1, ne_eq, Bool.not_eq_true]
  have hends : ∀ {word rest}, p.Describes word → (Text.endsInWord (before ++ word) ≠ Text.beginsInWord rest ↔
      Text.beginsInWord rest = false) := by
    intro word rest hdescribes
    have hne : word ≠ [] := by
      rintro rfl
      cases (hword [] hdescribes).1
    rw [Text.endsInWord_append hne, (hword word hdescribes).2, ne_comm, ne_eq, Bool.not_eq_true]
  constructor
  · intro htakes
    obtain ⟨_, _, rfl, hfirst, htakes⟩ := takes_seq_iff.mp htakes
    obtain ⟨rfl, hleft⟩ := takes_boundary_iff.mp hfirst
    rw [List.append_nil] at htakes
    obtain ⟨word, _, rfl, hdescribes, htakes⟩ := takes_seq_iff.mp htakes
    obtain ⟨_, rest, rfl, hsecond, htakes⟩ := takes_seq_iff.mp htakes
    obtain ⟨rfl, hright⟩ := takes_boundary_iff.mp hsecond
    replace hdescribes := (takes_iff_describes hp).mp hdescribes
    rw [List.append_nil] at htakes
    rw [List.nil_append, List.append_assoc] at hleft
    exact ⟨word, rest, rfl, hdescribes, (hbegins hdescribes).mp hleft, (hends hdescribes).mp hright, htakes⟩
  · rintro ⟨word, rest, rfl, hdescribes, hleft, hright, htakes⟩
    refine takes_seq_iff.mpr ⟨[], word ++ rest, rfl, takes_boundary_iff.mpr ⟨rfl, ?_⟩, ?_⟩
    · rw [List.append_assoc]
      exact (hbegins hdescribes).mpr hleft
    · rw [List.append_nil]
      refine takes_seq_iff.mpr ⟨word, rest, rfl, (takes_iff_describes hp).mpr hdescribes, ?_⟩
      refine takes_seq_iff.mpr ⟨[], rest, rfl, takes_boundary_iff.mpr ⟨rfl, (hends hdescribes).mpr hright⟩, ?_⟩
      rw [List.append_nil]
      exact htakes

/-- Plain parts up to a boundary. -/
theorem takes_inOrder_boundary_iff (hps : ∀ p ∈ ps, p.plain = true) :
    (inOrder (ps ++ [boundary])).Takes before piece after ↔
      (inOrder ps).Describes piece ∧ Text.endsInWord (before ++ piece) ≠ Text.beginsInWord after := by
  induction ps generalizing before piece with
  | nil =>
    refine takes_boundary_iff.trans (and_congr_right fun hnil => ?_)
    rw [hnil, List.append_nil]
  | cons p ps ih =>
    obtain ⟨hp, hps⟩ := List.forall_mem_cons.mp hps
    have hcons : inOrder (p :: ps ++ [boundary]) = seq p (inOrder (ps ++ [boundary])) := by
      cases ps <;> rfl
    rw [hcons, takes_seq_iff, describes_inOrder_cons]
    constructor
    · rintro ⟨first, second, rfl, hfirst, hsecond⟩
      obtain ⟨hsecond, hboundary⟩ := (ih hps).mp hsecond
      rw [List.append_assoc] at hboundary
      exact ⟨⟨first, second, (takes_iff_describes hp).mp hfirst, hsecond, rfl⟩, hboundary⟩
    · rintro ⟨⟨first, second, hfirst, hsecond, rfl⟩, hboundary⟩
      rw [← List.append_assoc] at hboundary
      exact ⟨first, second, rfl, (takes_iff_describes hp).mpr hfirst, (ih hps).mpr ⟨hsecond, hboundary⟩⟩

end SourceScan.Pattern
