import SourceScan.Tree.Locate
import SourceScan.Text.Lower

/-!
# Walking a tree

The files of a directory that a scan looks at: those with certain extensions, in the directory and in
the directories below it that are not passed over. Links to files count as files, links to directories
are not entered, and a directory that cannot be listed has no files.

The walk keeps a stack of the directories that it has come upon and has still to list. It takes the
one on top, yields the files in it in the order of their names, and puts its directories on the stack in
the reverse order of theirs, so that the first of them is listed next. Every directory on the stack is a
part of the tree that no other covers, and a listing replaces one by smaller ones: so the walk ends
(`weight`).
-/

namespace SourceScan

/-- A path below the root of a walk: the names on the way, the file's own last. -/
abbrev RelativePath := List CodeString

/-- The path with slashes between its names. -/
def RelativePath.text (p : RelativePath) : CodeString := CodeString.join "/" p

/-- Directories that every analyzer passes over. -/
def standardSkip : List CodeString :=
  ["node_modules", ".git", "dist", "build", "coverage", ".next", "out", "tmp", "temp", ".cache"]

/-- Directories that the security analyzer passes over. -/
def securitySkip : List CodeString :=
  standardSkip ++ ["vendor", "__pycache__", "target"].map CodeString.ofString

/-- Whether a directory is passed over: its own name is to be skipped, or its path begins with one of
the skipped names and a slash. -/
def isExcluded (name relative : CodeString) (skip : List CodeString) : Bool :=
  skip.contains name || skip.any fun s => (s ++ [FileName.slash]).isPrefixOf relative

/-- What a walk looks for: the extensions of the files, the directories to pass over, and how many
levels to enter. -/
structure Walk where
  extensions : List CodeString
  skip : List CodeString
  maxDepth : Option Int

/-- An entry of a directory with its name. -/
abbrev Entry := CodeString × Node

/-- The entries of a directory in the order of their names, if it can be listed. -/
def Node.listing? : Node → Option (List Entry)
  | dir true entries => some (entries.mergeSort fun a b => a.1.le b.1)
  | _ => none

namespace Walk

/-- Whether the walk enters a directory of a name at a path; `depth` is the level of the directory
that holds it. -/
def enters (w : Walk) (name : CodeString) (path : RelativePath) (depth : Nat) : Bool :=
  !isExcluded name path.text w.skip &&
    match w.maxDepth with
    | none => true
    | some most => decide ((depth : Int) + 1 ≤ most)

/-- Whether a file of a name has one of the extensions. -/
def wants (w : Walk) (name : CodeString) : Bool :=
  w.extensions.contains (FileName.suffix name).lower

/-- A directory that the walk has still to list: its path from the root of the walk, its level and what
it holds. -/
structure Pending where
  path : RelativePath
  depth : Nat
  node : Node

/-- The files that the walk yields from the entries of the directory `here`. -/
def filesAmong (w : Walk) (top : Node) (root : Door) (here : RelativePath) (entries : List Entry) :
    List RelativePath :=
  entries.filterMap fun (name, n) =>
    if !n.isDir && top.isFileAt (root.below here) name n && w.wants name then some (here ++ [name])
    else none

/-- The directories that the walk enters from the entries of a directory. -/
def dirsAmong (w : Walk) (d : Pending) (entries : List Entry) : List Pending :=
  entries.filterMap fun (name, n) =>
    if n.isDir && w.enters name (d.path ++ [name]) d.depth then
      some ⟨d.path ++ [name], d.depth + 1, n⟩
    else none

/-- Puts directories on the stack, one after the other. -/
def push (stack ds : List Pending) : List Pending := ds.foldl (fun stack d => d :: stack) stack

/-- Directories put on the stack in reverse lie on it in order. -/
theorem push_reverse (stack ds : List Pending) : push stack ds.reverse = ds ++ stack := by
  rw [push, List.foldl_reverse, List.foldr_cons_eq_append']

/-! ## The stack gets smaller -/

/-- How much of the tree these entries hold. -/
noncomputable def weight : List Node → Nat
  | [] => 0
  | n :: rest => sizeOf n + weight rest

theorem weight_append (l m : List Node) : weight (l ++ m) = weight l + weight m := by
  induction l with
  | nil => rw [List.nil_append, weight, Nat.zero_add]
  | cons n rest ih => rw [List.cons_append, weight, weight, ih, Nat.add_assoc]

theorem weight_perm {l m : List Node} (h : l.Perm m) : weight l = weight m := by
  induction h with
  | nil => rfl
  | cons n _ ih => rw [weight, weight, ih]
  | swap n k rest => simp only [weight, Nat.add_left_comm]
  | trans _ _ ih ih' => rw [ih, ih']

theorem weight_le_sizeOf (entries : List Entry) :
    weight (entries.map fun e => e.2) ≤ sizeOf entries := by
  induction entries with
  | nil => exact Nat.zero_le _
  | cons e rest ih =>
    obtain ⟨name, n⟩ := e
    simp only [List.map_cons, weight, List.cons.sizeOf_spec, Prod.mk.sizeOf_spec]
    omega

theorem weight_dirsAmong_le (w : Walk) (d : Pending) (entries : List Entry) :
    weight ((w.dirsAmong d entries).map Pending.node) ≤ weight (entries.map fun e => e.2) := by
  induction entries with
  | nil => exact Nat.zero_le _
  | cons e rest ih =>
    obtain ⟨name, n⟩ := e
    simp only [dirsAmong, List.filterMap_cons] at ih ⊢
    split
    · simp only [List.map_cons, weight]
      omega
    · next h =>
      split at h
      · cases h
        simp only [List.map_cons, weight]
        omega
      · cases h

/-- The directories that a listing leads to hold less than the directory listed. -/
theorem weight_dirsAmong_lt (w : Walk) (d : Pending) {entries : List Entry}
    (h : d.node.listing? = some entries) :
    weight ((w.dirsAmong d entries).map Pending.node) < sizeOf d.node := by
  obtain ⟨path, depth, node⟩ := d
  match node, h with
  | .dir true es, h =>
    cases h
    apply Nat.lt_of_le_of_lt (weight_dirsAmong_le w _ _)
    rw [weight_perm ((List.mergeSort_perm es _).map _)]
    have hle := weight_le_sizeOf es
    simp only [Node.dir.sizeOf_spec]
    omega

theorem sizeOf_pos (n : Node) : 0 < sizeOf n := by
  cases n with
  | file c => rw [Node.file.sizeOf_spec]; omega
  | dir l entries => rw [Node.dir.sizeOf_spec]; omega
  | link target => rw [Node.link.sizeOf_spec]; omega

/-! ## The walk -/

/-- The files that the walk yields with these directories on its stack, the top one first. -/
def filesFrom (w : Walk) (top : Node) (root : Door) : List Pending → List RelativePath
  | [] => []
  | d :: stack =>
    match _h : d.node.listing? with
    | none => filesFrom w top root stack
    | some entries =>
      w.filesAmong top root d.path entries ++
        filesFrom w top root (push stack (w.dirsAmong d entries).reverse)
termination_by stack => weight (stack.map Pending.node)
decreasing_by
  · have hpos := sizeOf_pos d.node
    simp only [List.map_cons, weight]
    omega
  · have hlt := weight_dirsAmong_lt w d _h
    rw [push_reverse]
    simp only [List.map_cons, List.map_append, weight, weight_append]
    omega

/-- The files that a walk of the directory at `root` yields, in order; none if there is no directory
there. -/
def files (w : Walk) (top : Node) (root : Door) : List RelativePath :=
  match top.at? root.place with
  | some n => if n.isDir then w.filesFrom top root [⟨[], 0, n⟩] else []
  | none => []

end Walk

end SourceScan
