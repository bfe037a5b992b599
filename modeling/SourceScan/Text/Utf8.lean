import SourceScan.Text.Lines

/-!
# The text of a file

A file's bytes are read as UTF-8, and what is not UTF-8 is left out: of a broken sequence the bytes
that fitted so far are dropped, and reading goes on at the first byte that did not fit. Encodings
that are too long, surrogates and code points beyond U+10FFFF do not fit. A byte order mark is a
character like any other.

The decoder is a fold over the bytes: its state is the characters found, last one first, and the
sequence that is still open.
-/

namespace SourceScan.Text

/-- A sequence that has begun: its value so far, how many bytes are to come, and the bounds within
which the next one has to lie. -/
structure OpenSequence where
  value : Nat
  missing : Nat
  low : Nat
  high : Nat

/-- The characters decoded so far, last one first, and the sequence that is open. -/
structure Decoding where
  done : List Char
  pending : Option OpenSequence

namespace Decoding

/-- Reads a byte that begins a sequence. The bounds on the second byte keep out the encodings that
are too long, the surrogates and what lies beyond U+10FFFF. -/
def lead (done : List Char) (b : Nat) : Decoding :=
  if b < 0x80 then ⟨Char.ofNat b :: done, none⟩
  else if b < 0xC2 then ⟨done, none⟩
  else if b < 0xE0 then ⟨done, some ⟨b - 0xC0, 1, 0x80, 0xBF⟩⟩
  else if b < 0xF0 then
    ⟨done, some ⟨b - 0xE0, 2, if b == 0xE0 then 0xA0 else 0x80, if b == 0xED then 0x9F else 0xBF⟩⟩
  else if b < 0xF5 then
    ⟨done, some ⟨b - 0xF0, 3, if b == 0xF0 then 0x90 else 0x80, if b == 0xF4 then 0x8F else 0xBF⟩⟩
  else ⟨done, none⟩

/-- Reads one byte: it continues the open sequence if it fits there, and otherwise begins anew. -/
def step (d : Decoding) (byte : UInt8) : Decoding :=
  let b := byte.toNat
  match d.pending with
  | none => lead d.done b
  | some s =>
    if s.low ≤ b && b ≤ s.high then
      let value := s.value * 64 + (b - 0x80)
      if s.missing == 1 then ⟨Char.ofNat value :: d.done, none⟩
      else ⟨d.done, some ⟨value, s.missing - 1, 0x80, 0xBF⟩⟩
    else lead d.done b

end Decoding

/-- The characters of a byte string; a sequence left open at the end is dropped. -/
def decode (bytes : List UInt8) : List Char :=
  (bytes.foldl Decoding.step ⟨[], none⟩).done.reverse

/-- The text of a file as the analyses see it: decoded, with unified line ends. -/
def ofBytes (bytes : ByteArray) : List Char := unifyNewlines (decode bytes.toList)

end SourceScan.Text
