import SourceScan.Text.CodeString

/-!
# File names and extensions

The extension of a file is what its name has from the last dot on. Two readings are needed.
`suffix` reads a path, whose last component it takes: a dot that begins or ends the name begins no
extension. `extension` reads the text of a path as it stands: the last dot after the last slash
counts, unless only dots come before it in the name.

A name on disk is a string of bytes. Those that are not UTF-8 appear in a name as lone halves from
U+DC80 to U+DCFF, one to a byte, and `stored` is the name that the disk gives back.
-/

namespace SourceScan.FileName

/-- The slash between the names of a path. -/
def slash : CodePoint := .scalar '/'

/-- The dot before an extension. -/
def dot : CodePoint := .scalar '.'

/-- The pieces of a path between slashes. -/
def components (path : CodeString) : List CodeString := path.splitOnP (· == slash)

/-- The string from the last dot on, and what comes before it, nearest first; `none` without a dot. -/
def lastDot (name : CodeString) : Option (CodeString × CodeString) :=
  let tail := name.reverse.takeWhile (· != dot)
  match name.reverse.dropWhile (· != dot) with
  | mark :: before => some (mark :: tail.reverse, before)
  | [] => none

/-- The last component of a path; empty components and `.` do not count. -/
def base (path : CodeString) : CodeString :=
  ((components path).filter fun c => c != [] && c != [dot]).getLast?.getD []

/-- The extension of the last component of a path, with its dot: a dot at either end of the name
begins none. -/
def suffix (path : CodeString) : CodeString :=
  match lastDot (base path) with
  | some (mark :: tail, _ :: _) => if tail.isEmpty then [] else mark :: tail
  | _ => []

/-- The extension in a path as it stands, with its dot: what follows the last slash from its last dot
on, unless nothing but dots comes before that. -/
def extension (path : CodeString) : CodeString :=
  match lastDot (path.reverse.takeWhile (· != slash)).reverse with
  | some (ext, before) => if before.all (· == dot) then [] else ext
  | none => []

/-! ## Names on disk -/

/-- The byte that a lone half stands for in a file name, if it stands for one. -/
def byte? : CodePoint → Option UInt8
  | .lone half =>
    if 0xDC80 ≤ half.code && half.code ≤ 0xDCFF then some (half.code - 0xDC00).toUInt8 else none
  | .scalar _ => none

/-- The character that the first `n` code points of a name spell, each standing for a byte. -/
def spelled? (name : CodeString) (n : Nat) : Option Char := do
  let bytes ← (name.take n).mapM byte?
  guard (bytes.length == n)
  match (← String.fromUTF8? ⟨bytes.toArray⟩).toList with
  | [c] => some c
  | _ => none

/-- A name with the bytes in it that are UTF-8 after all read as such; `fuel` is its length. -/
def storedFrom : (fuel : Nat) → CodeString → CodeString
  | 0, name => name
  | _ + 1, [] => []
  | fuel + 1, p :: rest =>
    match [2, 3, 4].findSome? fun n => (spelled? (p :: rest) n).map (·, n) with
    | some (c, n) => .scalar c :: storedFrom fuel (rest.drop (n - 1))
    | none => p :: storedFrom fuel rest

/-- The name that the disk gives back for a name, or the path that it gives back for a link's target. -/
def stored (name : CodeString) : CodeString :=
  if name.all CodePoint.isScalar then name else storedFrom name.length name

/-- How many bytes a name takes on disk. -/
def byteLength : CodeString → Nat
  | [] => 0
  | .scalar c :: rest => c.utf8Size + byteLength rest
  | .lone _ :: rest => byteLength rest + 1

/-- The longest stretch of lone halves in a name that the disk cannot take, with the place where it
begins: from the first half that stands for no byte to the last of those that follow it. -/
def unencodable? (name : CodeString) : Option (Nat × CodeString) :=
  let isWrong (p : CodePoint) : Bool := !p.isScalar && (byte? p).isNone
  match name.dropWhile (!isWrong ·) with
  | [] => none
  | rest => some (name.length - rest.length, rest.takeWhile (!·.isScalar))

end SourceScan.FileName
