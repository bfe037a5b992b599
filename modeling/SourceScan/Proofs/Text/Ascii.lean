import SourceScan.Proofs.Text.Encoded

/-!
# Texts of ASCII characters

A text of ASCII characters without carriage returns is read back from its bytes, one to a character.
-/

namespace SourceScan.Text

variable {cs : List Char} {c : Char}

/-- The bytes of a text, one to a character. -/
def asciiBytes (cs : List Char) : ByteArray := (cs.map fun c => c.toNat.toUInt8).toByteArray

/-- Below 128 the encoding of a character is its one byte. -/
theorem spaced_asciiBytes (h : ∀ c ∈ cs, c.toNat < 0x80) : Spaced cs (asciiBytes cs).toList := by
  rw [asciiBytes, toList_toByteArray]
  induction cs with
  | nil => exact .nil
  | cons c cs ih =>
    have hbyte : String.utf8EncodeChar c = [c.toNat.toUInt8] :=
      if_pos (Nat.le_of_lt_succ (h c List.mem_cons_self))
    have hrest := Spaced.char c (ih fun d hd => h d (List.mem_cons_of_mem c hd))
    rwa [hbyte] at hrest

/-- A character that is read back from its byte. -/
def isOneByte (c : Char) : Bool := c.toNat < 0x80 && c != '\r'

/-- A text of ASCII characters without carriage returns is that of its bytes. -/
theorem ofBytes_asciiBytes (h : cs.all isOneByte = true) : ofBytes (asciiBytes cs) = cs := by
  simp only [List.all_eq_true, isOneByte, Bool.and_eq_true, decide_eq_true_eq, bne_iff_ne] at h
  have hspaced : Spaced (withEnds ['\n'] cs) (asciiBytes cs).toList := by
    rw [withEnds_lineFeed]
    exact spaced_asciiBytes fun c hc => (h c hc).1
  exact ofBytes_of_spaced (fun hr => (h _ hr).2 rfl) (by decide) hspaced

theorem size_asciiBytes (cs : List Char) : (asciiBytes cs).size = cs.length := by
  rw [← ByteArray.size_data, ← Array.length_toList, asciiBytes, List.toList_data_toByteArray,
    List.length_map]

end SourceScan.Text
