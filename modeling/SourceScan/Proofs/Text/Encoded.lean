import Mathlib.Data.List.Basic
import SourceScan.Proofs.Text.LineEnds
import SourceScan.Text.Utf8

/-!
# Encodings of a text

A text is read back from its encoding in UTF-8 (`decode_of_spaced`), also if bytes that begin no sequence stand
between the encodings of its characters, and from the three ways to write its line ends (`unifyNewlines_withEnds`).
The bytes are decoded first, so a carriage return and a line feed with such a byte between them are one line end
(`ofBytes_of_spaced`).

The decoder leaves a sequence within its bounds, so the bounds on the second byte are what has to be looked at: they
hold for the encodings of characters because none of these is a surrogate or beyond U+10FFFF.
-/

namespace SourceScan.Text

variable {cs : List Char} {bytes : List UInt8} {b : Nat} {c : Char} {ending : List Char}

/-! ## One character -/

namespace Decoding

theorem step_lead (done : List Char) (hb : b < 256) : step ⟨done, none⟩ (UInt8.ofNat b) = lead done b := by
  rw [step, UInt8.toNat_ofNat_of_lt' hb]

/-- Within its bounds, and not at its end, an open sequence goes on. -/
theorem step_continue (done : List Char) (value missing : Nat) {low high : Nat} (hlow : low ≤ b) (hhigh : b ≤ high)
    (hb : b < 256) : step ⟨done, some ⟨value, missing + 2, low, high⟩⟩ (UInt8.ofNat b) =
      ⟨done, some ⟨value * 64 + (b - 0x80), missing + 1, 0x80, 0xBF⟩⟩ := by
  simp only [step, UInt8.toNat_ofNat_of_lt' hb, hlow, hhigh, decide_true, Bool.and_self, if_true, beq_iff_eq]
  rw [if_neg (by omega)]
  rfl

/-- The last byte of a sequence, within its bounds, completes a character. -/
theorem step_last (done : List Char) (value : Nat) {low high : Nat} (hlow : low ≤ b) (hhigh : b ≤ high)
    (hb : b < 256) : step ⟨done, some ⟨value, 1, low, high⟩⟩ (UInt8.ofNat b) =
      ⟨Char.ofNat (value * 64 + (b - 0x80)) :: done, none⟩ := by
  simp only [step, UInt8.toNat_ofNat_of_lt' hb, hlow, hhigh, decide_true, Bool.and_self, if_true, beq_self_eq_true]

variable {n : Nat}

theorem foldl_one (done : List Char) (h : n ≤ 0x7F) :
    [UInt8.ofNat n].foldl step ⟨done, none⟩ = ⟨Char.ofNat n :: done, none⟩ := by
  rw [List.foldl_cons, step_lead done (by omega), lead, if_pos (by omega), List.foldl_nil]

theorem foldl_two (done : List Char) (hlow : 0x80 ≤ n) (hhigh : n ≤ 0x7FF) :
    [UInt8.ofNat (n / 64 % 0x20 + 0xC0), UInt8.ofNat (n % 0x40 + 0x80)].foldl step ⟨done, none⟩ =
      ⟨Char.ofNat n :: done, none⟩ := by
  have hvalue : (n / 64 % 0x20 + 0xC0 - 0xC0) * 64 + (n % 0x40 + 0x80 - 0x80) = n := by omega
  rw [List.foldl_cons, step_lead done (by omega), lead, if_neg (by omega), if_neg (by omega), if_pos (by omega),
    List.foldl_cons, step_last done _ (by omega) (by omega) (by omega), hvalue, List.foldl_nil]

theorem foldl_three (done : List Char) (hlow : 0x800 ≤ n) (hhigh : n ≤ 0xFFFF)
    (hsurrogate : n < 0xD800 ∨ 0xDFFF < n) :
    [UInt8.ofNat (n / 4096 % 0x10 + 0xE0), UInt8.ofNat (n / 64 % 0x40 + 0x80), UInt8.ofNat (n % 0x40 + 0x80)].foldl
      step ⟨done, none⟩ = ⟨Char.ofNat n :: done, none⟩ := by
  have hvalue : ((n / 4096 % 0x10 + 0xE0 - 0xE0) * 64 + (n / 64 % 0x40 + 0x80 - 0x80)) * 64 +
      (n % 0x40 + 0x80 - 0x80) = n := by omega
  rw [List.foldl_cons, step_lead done (by omega), lead, if_neg (by omega), if_neg (by omega), if_neg (by omega),
    if_pos (by omega), List.foldl_cons, step_continue done _ 0 ?_ ?_ (by omega), List.foldl_cons,
    step_last done _ (by omega) (by omega) (by omega), hvalue, List.foldl_nil]
  · -- After 0xE0 the second byte is from 0xA0 on, as a shorter sequence would do otherwise.
    simp only [beq_iff_eq]
    split <;> omega
  · -- After 0xED it is 0x9F at most, as a surrogate is no character.
    simp only [beq_iff_eq]
    split <;> omega

theorem foldl_four (done : List Char) (hlow : 0x10000 ≤ n) (hhigh : n < 0x110000) :
    [UInt8.ofNat (n / 262144 % 0x08 + 0xF0), UInt8.ofNat (n / 4096 % 0x40 + 0x80), UInt8.ofNat (n / 64 % 0x40 + 0x80),
      UInt8.ofNat (n % 0x40 + 0x80)].foldl step ⟨done, none⟩ = ⟨Char.ofNat n :: done, none⟩ := by
  have hvalue : (((n / 262144 % 0x08 + 0xF0 - 0xF0) * 64 + (n / 4096 % 0x40 + 0x80 - 0x80)) * 64 +
      (n / 64 % 0x40 + 0x80 - 0x80)) * 64 + (n % 0x40 + 0x80 - 0x80) = n := by omega
  rw [List.foldl_cons, step_lead done (by omega), lead, if_neg (by omega), if_neg (by omega), if_neg (by omega),
    if_neg (by omega), if_pos (by omega), List.foldl_cons, step_continue done _ 1 ?_ ?_ (by omega),
    List.foldl_cons, step_continue done _ 0 (by omega) (by omega) (by omega), List.foldl_cons,
    step_last done _ (by omega) (by omega) (by omega), hvalue, List.foldl_nil]
  · simp only [beq_iff_eq]
    split <;> omega
  · simp only [beq_iff_eq]
    split <;> omega

end Decoding

/-- Between two characters, the encoding of a character is read as that character. -/
theorem foldl_step_encodeChar (done : List Char) (c : Char) :
    (String.utf8EncodeChar c).foldl Decoding.step ⟨done, none⟩ = ⟨c :: done, none⟩ := by
  have hvalid : c.toNat < 0xD800 ∨ 0xDFFF < c.toNat ∧ c.toNat < 0x110000 := c.valid
  rw [← congrArg (· :: done) (Char.ofNat_toNat c)]
  fun_cases String.utf8EncodeChar c with
  | case1 v h => exact Decoding.foldl_one done h
  | case2 v h h' => exact Decoding.foldl_two done (by omega) h'
  | case3 v h h' h'' => exact Decoding.foldl_three done (by omega) h'' (hvalid.imp_right And.left)
  | case4 v h h' h'' =>
    have hlow : 0x10000 ≤ c.toNat := Nat.lt_of_not_le h''
    have hhigh : c.toNat < 0x110000 := by omega
    exact Decoding.foldl_four done hlow hhigh

/-! ## A text with stray bytes -/

/-- The bytes are the encodings of the characters, one after the other, with any number of bytes 0xFF before, between
and after them. -/
inductive Spaced : List Char → List UInt8 → Prop
  | nil : Spaced [] []
  | stray {cs : List Char} {bytes : List UInt8} (rest : Spaced cs bytes) : Spaced cs (0xFF :: bytes)
  | char (c : Char) {cs : List Char} {bytes : List UInt8} (rest : Spaced cs bytes) :
      Spaced (c :: cs) (String.utf8EncodeChar c ++ bytes)

/-- The encoding of a text has no stray bytes. -/
theorem spaced_encode (cs : List Char) : Spaced cs (cs.flatMap String.utf8EncodeChar) := by
  induction cs with
  | nil => exact .nil
  | cons c cs ih => exact .char c ih

theorem Spaced.append {cs' : List Char} {bytes' : List UInt8} (h : Spaced cs bytes) (h' : Spaced cs' bytes') :
    Spaced (cs ++ cs') (bytes ++ bytes') := by
  induction h with
  | nil => exact h'
  | stray _ ih => exact .stray ih
  | char c _ ih =>
    rw [List.append_assoc]
    exact .char c ih

theorem foldl_step_of_spaced (h : Spaced cs bytes) (done : List Char) :
    bytes.foldl Decoding.step ⟨done, none⟩ = ⟨cs.reverse ++ done, none⟩ := by
  induction h generalizing done with
  | nil => rfl
  | stray _ ih => exact ih done
  | char c _ ih =>
    rw [List.foldl_append, foldl_step_encodeChar, ih, List.reverse_cons, List.append_assoc, List.singleton_append]

/-- Stray bytes between characters are dropped, and the characters are read back. -/
theorem decode_of_spaced (h : Spaced cs bytes) : decode bytes = cs := by
  rw [decode, foldl_step_of_spaced h, List.append_nil, List.reverse_reverse]

/-! ## Line ends -/

/-- The ways to write the end of a line. -/
def lineEnds : List (List Char) := [['\n'], ['\r', '\n'], ['\r']]

theorem withEnds_lineFeed (cs : List Char) : withEnds ['\n'] cs = cs := by
  have hsame : ∀ c : Char, (if c = '\n' then ['\n'] else [c]) = [c] := by
    intro c
    split
    · next hc => rw [hc]
    · rfl
  simp only [withEnds, hsame, List.flatMap_singleton']

/-- The text with unified line ends, where `before` is the character before it. -/
def unifyAfter (before : Char) (cs : List Char) : List Char :=
  (((before :: cs).zip cs).filterMap fun (before, c) =>
    if before == '\r' && c == '\n' then none else some c).map fun c => if c == '\r' then '\n' else c

theorem unifyAfter_cons (before c : Char) (cs : List Char) :
    unifyAfter before (c :: cs) = if before = '\r' ∧ c = '\n' then unifyAfter c cs
      else (if c = '\r' then '\n' else c) :: unifyAfter c cs := by
  unfold unifyAfter
  rw [List.zip_cons_cons, List.filterMap_cons]
  by_cases hboth : before = '\r' ∧ c = '\n'
  · rw [if_pos hboth, hboth.1, hboth.2]
    rfl
  · have hkept : (before == '\r' && c == '\n') = false := by simpa using hboth
    simp only [hkept, if_neg hboth, Bool.false_eq_true, if_false, List.map_cons, beq_iff_eq]

/-- A line end of one kind is read as a line feed, and leaves no carriage return for the next one. -/
theorem exists_unifyAfter_ending {before : Char} (hending : ending ∈ lineEnds)
    (hbefore : before = '\r' → ending ≠ ['\n']) (cs : List Char) :
    ∃ last, unifyAfter before (ending ++ cs) = '\n' :: unifyAfter last cs ∧ (last = '\r' → ending ≠ ['\n']) := by
  simp only [lineEnds, List.mem_cons, List.not_mem_nil, or_false] at hending
  rcases hending with rfl | rfl | rfl
  · have hne : before ≠ '\r' := fun heq => hbefore heq rfl
    exact ⟨'\n', (unifyAfter_cons before '\n' cs).trans (if_neg fun hboth => hne hboth.1), by decide⟩
  · refine ⟨'\n', ?_, by decide⟩
    show unifyAfter before ('\r' :: '\n' :: cs) = _
    rw [unifyAfter_cons, if_neg (by simp), if_pos rfl, unifyAfter_cons, if_pos ⟨rfl, rfl⟩]
  · refine ⟨'\r', ?_, by decide⟩
    show unifyAfter before ('\r' :: cs) = _
    rw [unifyAfter_cons, if_neg (by simp), if_pos rfl]

theorem unifyAfter_withEnds {before : Char} (h : '\r' ∉ cs) (hending : ending ∈ lineEnds)
    (hbefore : before = '\r' → ending ≠ ['\n']) : unifyAfter before (withEnds ending cs) = cs := by
  induction cs generalizing before with
  | nil => rfl
  | cons c cs ih =>
    obtain ⟨hc, hcs⟩ := List.ne_and_not_mem_of_not_mem_cons h
    by_cases hfeed : c = '\n'
    · obtain ⟨last, heq, hlast⟩ := exists_unifyAfter_ending hending hbefore (withEnds ending cs)
      rw [hfeed, withEnds_newline, heq, ih hcs hlast]
    · rw [withEnds_cons ending cs hfeed, unifyAfter_cons, if_neg fun hboth => hfeed hboth.2, if_neg (Ne.symm hc),
        ih hcs fun hreturn => absurd hreturn (Ne.symm hc)]

/-- However the line ends of a text are written, they are read as line feeds. -/
theorem unifyNewlines_withEnds (h : '\r' ∉ cs) (hending : ending ∈ lineEnds) :
    unifyNewlines (withEnds ending cs) = cs :=
  unifyAfter_withEnds h hending fun hspace => absurd hspace (by decide)

/-! ## The text of the bytes -/

theorem toList_loop_eq (bytes : ByteArray) (i : Nat) (done : List UInt8) :
    ByteArray.toList.loop bytes i done = done.reverse ++ bytes.data.toList.drop i := by
  fun_induction ByteArray.toList.loop bytes i done with
  | case1 i done h ih =>
    have hi : i < bytes.data.toList.length := by
      rw [Array.length_toList]
      exact h
    have hget : bytes.get! i = bytes.data.toList[i] := by
      rw [ByteArray.get!, Array.getElem_toList]
      exact getElem!_pos bytes.data i h
    rw [ih, List.drop_eq_getElem_cons hi, List.reverse_cons, List.append_assoc, List.singleton_append, hget]
  | case2 i done h =>
    have hi : bytes.data.toList.length ≤ i := by
      rw [Array.length_toList]
      exact Nat.le_of_not_lt h
    rw [List.drop_eq_nil_of_le hi, List.append_nil]

theorem toList_toByteArray (bytes : List UInt8) : bytes.toByteArray.toList = bytes := by
  rw [ByteArray.toList, toList_loop_eq, List.toList_data_toByteArray]
  rfl

/-- A text is read from its encoding, however its line ends are written and whatever stray bytes there are. -/
theorem ofBytes_of_spaced {bytes : ByteArray} (h : '\r' ∉ cs) (hending : ending ∈ lineEnds)
    (hbytes : Spaced (withEnds ending cs) bytes.toList) : ofBytes bytes = cs := by
  rw [ofBytes, decode_of_spaced hbytes, unifyNewlines_withEnds h hending]

end SourceScan.Text
