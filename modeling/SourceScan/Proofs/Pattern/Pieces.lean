import SourceScan.Proofs.Pattern.Ends

/-!
# How many pieces a text has

The pieces that a pattern spans are counted from the left without overlap, each from the first place where one
begins. If no piece ends before one that begins earlier (`Orderly`), there is no better choice: the count is the
largest number of pieces that lie one after the other (`Pieces`, `pieces_count` and `le_count_of_pieces`).

So two texts in a longer one have no more pieces together than that one has (`count_add_count_le`).
-/

namespace SourceScan.Pattern

variable {t u v : Array Char} {p : Pattern} {s : CharSet} {i j k m n off off' : Nat} {next next' : Option Char}

/-- There are `n` pieces of the pattern one after the other, the first of them at place `i` or later. -/
inductive Pieces (t : Array Char) (p : Pattern) : (i n : Nat) → Prop
  | nil (i : Nat) : Pieces t p i 0
  | cons {i j k n : Nat} : i ≤ j → Spans t p j k → Pieces t p k n → Pieces t p i (n + 1)

theorem Pieces.of_le (h : Pieces t p i n) (hle : k ≤ i) : Pieces t p k n := by
  cases h with
  | nil => exact .nil k
  | cons hstart hspans hrest => exact .cons (Nat.le_trans hle hstart) hspans hrest

/-- Of two pieces that overlap, the one that begins later ends no earlier. -/
def Orderly (t : Array Char) (p : Pattern) : Prop :=
  ∀ i j i' j', Spans t p i j → Spans t p i' j' → i ≤ i' → i' < j → j ≤ j'

/-- Pieces that end with the first character of a set are orderly. -/
theorem orderly_of_closedBy (hp : p.closedBy s = true) : Orderly t p := by
  intro i j i' j' h h' hle _
  obtain ⟨k, rfl, _, _, hnone⟩ := h.closed hp
  obtain ⟨k', rfl, hle', hchar', _⟩ := h'.closed hp
  apply Nat.succ_le_succ
  apply Nat.le_of_not_lt
  intro hlt
  exact Bool.false_ne_true ((hnone k' (Nat.le_trans hle hle') hlt).symm.trans hchar')

/-! ## The places of a search -/

theorem pairwise_startsUpTo (s : CharSet) (t : Array Char) (i : Nat) (done : List Nat)
    (hdone : done.Pairwise (· < ·)) (hlater : ∀ x ∈ done, i < x) :
    (startsUpTo s t i done).Pairwise (· < ·) := by
  have hcons : ∀ x, x ≤ i → (x :: done).Pairwise (· < ·) := fun x hx =>
    List.pairwise_cons.mpr ⟨fun y hy => Nat.lt_of_le_of_lt hx (hlater y hy), hdone⟩
  induction i generalizing done with
  | zero =>
    unfold startsUpTo
    split
    · exact hcons 0 (Nat.le_refl 0)
    · exact hdone
  | succ i ih =>
    unfold startsUpTo
    split
    · refine ih _ (hcons (i + 1) (Nat.le_refl _)) (fun x hx => ?_) fun x hx => ?_
      · rcases List.mem_cons.mp hx with rfl | hx
        · exact Nat.lt_succ_self i
        · exact Nat.lt_of_succ_lt (hlater x hx)
      · refine List.pairwise_cons.mpr ⟨fun y hy => ?_, hcons (i + 1) (Nat.le_refl _)⟩
        rcases List.mem_cons.mp hy with rfl | hy
        · exact Nat.lt_succ_of_le hx
        · exact Nat.lt_trans (Nat.lt_succ_of_le hx) (hlater y hy)
    · exact ih done hdone (fun x hx => Nat.lt_of_succ_lt (hlater x hx)) fun x hx => hcons x (Nat.le_succ_of_le hx)

/-- A search tries its places from the left. -/
theorem pairwise_starts (p : Pattern) (t : Array Char) : (starts p t).Pairwise (· < ·) := by
  unfold starts
  split
  · exact List.pairwise_lt_range
  · split
    · exact pairwise_startsUpTo _ t t.size [] .nil nofun
    · exact .nil

/-! ## The count -/

theorem spans_of_reach {js : List Nat} (h : reach t p [i] = j :: js) : Spans t p i j := by
  obtain ⟨i', hi', hspans⟩ := (mem_reach t p [i] j).mp (h ▸ List.mem_cons_self)
  obtain rfl := List.mem_singleton.mp hi'
  exact hspans

theorem not_spans_of_reach (h : reach t p [i] = []) : ¬Spans t p i j := by
  intro hspans
  have hmem := (mem_reach t p [i] j).mpr ⟨i, List.mem_singleton_self i, hspans⟩
  rw [h] at hmem
  cases hmem

/-- What is counted are pieces one after the other. -/
theorem pieces_countFrom (hp : p.nullable = false) (places : List Nat) (after count : Nat) :
    ∃ n, countFrom p t places after count = count + n ∧ Pieces t p after n := by
  induction places generalizing after count with
  | nil => exact ⟨0, rfl, .nil after⟩
  | cons i rest ih =>
    unfold countFrom
    split
    · exact ih after count
    · next hafter =>
      split
      · exact ih after count
      · next j ends hreach =>
        have hspans := spans_of_reach hreach
        have hlt := Spans.lt_of_not_nullable p hspans hp
        rw [Nat.max_eq_left hlt]
        obtain ⟨n, hcount, hpieces⟩ := ih j (count + 1)
        exact ⟨n + 1, by omega, .cons (Nat.le_of_not_lt hafter) hspans hpieces⟩

/-- A piece that begins no later than any other may stand in for the first of several pieces: it ends no later than
that one, and the others can follow it. -/
theorem Pieces.follow (horderly : Orderly t p) (hspans : Spans t p k j)
    (hleast : ∀ x y, i ≤ x → Spans t p x y → k ≤ x) (h : Pieces t p i (n + 1)) : Pieces t p j n := by
  cases h with
  | @cons _ x y _ hle hpiece hpieces =>
    have hend : j ≤ y := by
      rcases Nat.lt_or_ge x j with hin | hout
      · exact horderly k j x y hspans hpiece (hleast x y hle hpiece) hin
      · exact Nat.le_trans hout hpiece.le
    exact hpieces.of_le hend

/-- If all pieces from a place on begin at one of the places to come, as many are counted as can lie one after
the other. -/
theorem le_countFrom (hp : p.nullable = false) (horderly : Orderly t p) {places : List Nat} {after : Nat}
    (count : Nat) (hsorted : places.Pairwise (· < ·))
    (hall : ∀ i j, after ≤ i → Spans t p i j → i ∈ places) (h : Pieces t p after n) :
    count + n ≤ countFrom p t places after count := by
  induction places generalizing after count n with
  | nil =>
    cases h with
    | nil => exact Nat.le_refl count
    | cons hle hspans _ => cases hall _ _ hle hspans
  | cons x rest ih =>
    obtain ⟨hfirst, hrest⟩ := List.pairwise_cons.mp hsorted
    have hlater : ∀ {after'}, after ≤ after' → (∀ j, after' ≤ x → ¬Spans t p x j) →
        ∀ i j, after' ≤ i → Spans t p i j → i ∈ rest := by
      intro after' hafter hnot i j hle hspans
      rcases List.mem_cons.mp (hall i j (Nat.le_trans hafter hle) hspans) with rfl | hmem
      · exact absurd hspans (hnot j hle)
      · exact hmem
    unfold countFrom
    split
    · next hpassed => exact ih count hrest (hlater (Nat.le_refl after) fun j hle => by omega) h
    · split
      · next hreach =>
        exact ih count hrest (hlater (Nat.le_refl after) fun j _ => not_spans_of_reach hreach) h
      · next j ends hreach =>
        have hspans := spans_of_reach hreach
        have hlt := Spans.lt_of_not_nullable p hspans hp
        rw [Nat.max_eq_left hlt]
        have hrest' : ∀ m, Pieces t p j m → count + 1 + m ≤ countFrom p t rest j (count + 1) := fun m =>
          ih (count + 1) hrest (hlater (by omega) fun _ hle => absurd hlt (Nat.not_lt_of_le hle))
        have hleast : ∀ y k, after ≤ y → Spans t p y k → x ≤ y := by
          intro y k hle hpiece
          rcases List.mem_cons.mp (hall y k hle hpiece) with rfl | hmem
          · exact Nat.le_refl y
          · exact Nat.le_of_lt (hfirst y hmem)
        cases n with
        | zero => exact Nat.le_trans (Nat.le_succ count) (hrest' 0 (.nil j))
        | succ n =>
          have hcount := hrest' n (h.follow horderly hspans hleast)
          omega

/-- The count is the number of some pieces one after the other. -/
theorem pieces_count (hp : p.nullable = false) (t : Array Char) : Pieces t p 0 (count p t) := by
  obtain ⟨n, hcount, hpieces⟩ := pieces_countFrom (t := t) hp (starts p t) 0 0
  unfold count
  rw [hcount, Nat.zero_add]
  exact hpieces

/-- A piece that is not empty begins in the text. -/
theorem Spans.start_lt (hp : p.nullable = false) (h : Spans t p i j) : i < t.size := by
  obtain ⟨s, _, hchar⟩ := Spans.charAt_first p h (Spans.lt_of_not_nullable p h hp)
  exact charAt_lt hchar

/-- No more pieces lie one after the other than are counted. -/
theorem le_count_of_pieces (hp : p.nullable = false) (horderly : Orderly t p) (h : Pieces t p 0 n) :
    n ≤ count p t := by
  have hcount := le_countFrom hp horderly 0 (pairwise_starts p t)
    (fun i j _ hspans => mem_starts hspans (Nat.le_of_lt (hspans.start_lt hp))) h
  unfold count
  omega

/-! ## Texts in a text -/

/-- The pieces of a text, and more pieces after it, are pieces where it stands in a longer one. -/
theorem Pieces.inside_append (h : Inside t u off next) (hp : p.nullable = false) (hlasting : p.lasting next = true)
    (hpieces : Pieces u p i m) (hi : i ≤ u.size) (hlater : Pieces t p (off + u.size) n) :
    Pieces t p (off + i) (m + n) := by
  induction hpieces with
  | nil i =>
    rw [Nat.zero_add]
    exact hlater.of_le (Nat.add_le_add_left hi off)
  | @cons i j k m hle hspans _ ih =>
    have hj : j ≤ u.size := Nat.le_of_lt (hspans.start_lt hp)
    rw [Nat.add_right_comm]
    exact .cons (Nat.add_le_add_left hle off) (Spans.inside h p hlasting hj hspans) (ih (Spans.le_size hspans hj))

/-- Two texts, one after the other in a longer one, have no more pieces together than that one. -/
theorem count_add_count_le (hp : p.nullable = false) (horderly : Orderly t p) (h : Inside t u off next)
    (h' : Inside t v off' next') (hlasting : p.lasting next = true) (hlasting' : p.lasting next' = true)
    (hle : off + u.size ≤ off') : count p u + count p v ≤ count p t := by
  have hsecond : Pieces t p off' (count p v) :=
    Pieces.inside_append h' hp hlasting' (pieces_count hp v) (Nat.zero_le _) (.nil _)
  have hboth := Pieces.inside_append h hp hlasting (pieces_count hp u) (Nat.zero_le _) (hsecond.of_le hle)
  exact le_count_of_pieces hp horderly (hboth.of_le (Nat.zero_le _))

end SourceScan.Pattern
