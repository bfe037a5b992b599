import SourceScan.Tree.FileName

/-!
# Directory trees

A directory tree as data: files with their bytes, directories with their entries, and symbolic links.

What an entry holds is asked for in two ways. The walk of a scan opens the directories and files it
comes upon; a check of the project opens files by their names. An entry may be shut to the walk alone:
then its parent lists it, and the walk neither reads it nor looks inside (`Content.byName`, a
directory that is not `listable`).

No file is longer than a file system can count, and the type of its bytes says so.
-/

namespace SourceScan

/-- The bytes of a file, fewer than `2 ^ 63` of them. -/
structure FileBytes where
  bytes : ByteArray
  size_lt : bytes.size < Nat.pow 2 63

namespace FileBytes

/-- The bytes as a file's, if they are few enough. -/
def ofBytes? (bytes : ByteArray) : Option FileBytes :=
  if h : bytes.size < Nat.pow 2 63 then some ⟨bytes, h⟩ else none

end FileBytes

/-- What a file holds, and to whom. -/
inductive Content
  /-- Open to everyone. -/
  | open (bytes : FileBytes)
  /-- Open by name, and shut to the walk. -/
  | byName (bytes : FileBytes)
  /-- Shut to everyone. -/
  | shut

namespace Content

/-- The bytes that the walk reads. -/
def walked? : Content → Option FileBytes
  | .open b => some b
  | _ => none

/-- The bytes that are read by name. -/
def named? : Content → Option FileBytes
  | .open b => some b
  | .byName b => some b
  | .shut => none

end Content

/-- An entry of a directory tree. -/
inductive Node
  | file (content : Content)
  | dir (listable : Bool) (entries : List (CodeString × Node))
  /-- A symbolic link. Its target is relative to the directory that holds the link and leads to a place in the tree. A
  link that is absolute or leads out of the tree is to be given by what it leads to, a file as a file: as a link it
  leads nowhere, since nothing is known outside. -/
  | link (target : CodeString)

/-- A place in a tree: the names on the way down from its top. -/
abbrev Location := List CodeString

namespace Node

/-- The empty directory. -/
def emptyDir : Node := dir true []

/-- The entry of a name in a directory. -/
def child? : Node → CodeString → Option Node
  | dir _ entries, name => entries.lookup (FileName.stored name)
  | _, _ => none

/-- The entry at a location; links on the way are not followed. -/
def at? : Node → Location → Option Node
  | n, [] => some n
  | n, name :: rest => (n.child? name).bind (at? · rest)

/-- Whether the entry is a directory. -/
def isDir : Node → Bool
  | dir _ _ => true
  | _ => false

/-- The entries with one of them replaced, or added at the end. -/
def setEntry (entries : List (CodeString × Node)) (name : CodeString) (n : Node) :
    List (CodeString × Node) :=
  if entries.any (·.1 == name) then
    entries.map fun (other, m) => if other == name then (other, n) else (other, m)
  else entries ++ [(name, n)]

/-- The tree with the entry at a location replaced by what `f` makes of it; directories on the way
are made where they are missing. -/
def update (f : Option Node → Node) : Option Node → Location → Node
  | n, [] => f n
  | n, name :: rest =>
    let name := FileName.stored name
    match n with
    | some (dir listable entries) =>
      dir listable (setEntry entries name (update f (entries.lookup name) rest))
    | _ => dir true [(name, update f none rest)]

end Node

end SourceScan
