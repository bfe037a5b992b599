import SourceScan.Tree.Walk

/-!
# The walk without its stack

`Walk.filesBelow` is the walk by recursion: the files of a directory in the order of their names, then
those below each of its directories in the order of theirs. `filesFrom_eq_flatMap` says that the loop
over the stack yields the same, whatever lies on the stack: what it yields is what the recursion yields
from each directory there, the top one first.

All other theorems on the walk are about the recursion.
-/

namespace SourceScan.Walk

variable {w : Walk} {top : Node} {root : Door} {d s : Pending} {entries : List Entry}

/-- What is kept of a list comes from a member that is wanted. -/
theorem mem_filterMap_ite {α β : Type} {c : α → Bool} {f : α → β} {l : List α} {y : β} :
    y ∈ l.filterMap (fun x => if c x then some (f x) else none) ↔ ∃ x ∈ l, c x = true ∧ y = f x := by
  rw [List.mem_filterMap]
  refine exists_congr fun x => and_congr_right fun _ => ?_
  cases c x with
  | true => simp only [if_true, Option.some.injEq, true_and, eq_comm]
  | false => simp only [Bool.false_eq_true, if_false, reduceCtorEq, false_and]

/-- What is kept of a list is kept member by member. -/
theorem filterMap_ite_cons {α β : Type} (c : α → Bool) (f : α → β) (x : α) (l : List α) :
    (x :: l).filterMap (fun x => if c x then some (f x) else none) =
      (if c x then [f x] else []) ++ l.filterMap fun x => if c x then some (f x) else none := by
  rw [List.filterMap_cons]
  cases c x <;> rfl

theorem filesAmong_cons (w : Walk) (top : Node) (root : Door) (here : RelativePath) (name : CodeString) (n : Node)
    (entries : List Entry) :
    w.filesAmong top root here ((name, n) :: entries) =
      (if !n.isDir && top.isFileAt (root.below here) name n && w.wants name then [here ++ [name]] else []) ++
        w.filesAmong top root here entries :=
  filterMap_ite_cons (fun e : Entry => !e.2.isDir && top.isFileAt (root.below here) e.1 e.2 && w.wants e.1)
    (fun e : Entry => here ++ [e.1]) (name, n) entries

theorem dirsAmong_cons (w : Walk) (d : Pending) (name : CodeString) (n : Node) (entries : List Entry) :
    w.dirsAmong d ((name, n) :: entries) =
      (if n.isDir && w.enters name (d.path ++ [name]) d.depth then [⟨d.path ++ [name], d.depth + 1, n⟩] else []) ++
        w.dirsAmong d entries :=
  filterMap_ite_cons (fun e : Entry => e.2.isDir && w.enters e.1 (d.path ++ [e.1]) d.depth)
    (fun e : Entry => (⟨d.path ++ [e.1], d.depth + 1, e.2⟩ : Pending)) (name, n) entries

theorem sizeOf_le_weight {n : Node} {l : List Node} (h : n ∈ l) : sizeOf n ≤ weight l := by
  induction l with
  | nil => cases h
  | cons k rest ih =>
    rw [weight]
    rcases List.mem_cons.mp h with rfl | h
    · omega
    · have hle := ih h
      omega

/-- A directory that a listing leads to is smaller than the one listed. -/
theorem sizeOf_lt_of_mem_dirsAmong (h : d.node.listing? = some entries)
    (hs : s ∈ w.dirsAmong d entries) : sizeOf s.node < sizeOf d.node :=
  Nat.lt_of_le_of_lt (sizeOf_le_weight (List.mem_map_of_mem hs)) (weight_dirsAmong_lt w d h)

/-- The files below a directory: its own, then those below each of its directories that the walk
enters. -/
def filesBelow (w : Walk) (top : Node) (root : Door) (d : Pending) : List RelativePath :=
  match _h : d.node.listing? with
  | none => []
  | some entries =>
    w.filesAmong top root d.path entries ++
      (w.dirsAmong d entries).attach.flatMap fun ⟨s, _⟩ => filesBelow w top root s
termination_by sizeOf d.node
decreasing_by exact sizeOf_lt_of_mem_dirsAmong _h ‹_›

theorem filesBelow_of_none (h : d.node.listing? = none) : w.filesBelow top root d = [] := by
  rw [filesBelow]
  split
  · rfl
  · next hsome =>
    rw [h] at hsome
    cases hsome

theorem filesBelow_of_some (h : d.node.listing? = some entries) :
    w.filesBelow top root d = w.filesAmong top root d.path entries ++
      (w.dirsAmong d entries).flatMap (w.filesBelow top root) := by
  rw [filesBelow]
  split
  · next hnone =>
    rw [h] at hnone
    cases hnone
  · next entries' hsome =>
    obtain rfl : entries' = entries := Option.some.inj (hsome.symm.trans h)
    rw [List.flatMap_subtype (g := w.filesBelow top root) fun _ _ => rfl, List.unattach_attach]

/-- A directory whose entries are in the order of their names is listed as it is. -/
theorem filesBelow_of_sorted (h : entries.Pairwise fun a b => a.1.le b.1 = true) (path : RelativePath)
    (depth : Nat) :
    w.filesBelow top root ⟨path, depth, .dir true entries⟩ = w.filesAmong top root path entries ++
      (w.dirsAmong ⟨path, depth, .dir true entries⟩ entries).flatMap (w.filesBelow top root) :=
  filesBelow_of_some (congrArg some (List.mergeSort_of_pairwise h))

/-- Below a directory that holds one file the walk yields that file, if it is wanted. -/
theorem filesBelow_singleFile (w : Walk) (top : Node) (root : Door) (path : RelativePath) (depth : Nat)
    (name : CodeString) (c : Content) :
    w.filesBelow top root ⟨path, depth, .dir true [(name, .file c)]⟩ =
      if w.wants name then [path ++ [name]] else [] := by
  rw [filesBelow_of_sorted (List.pairwise_singleton _ _), filesAmong_cons, dirsAmong_cons]
  exact (List.append_nil _).trans (List.append_nil _)

/-- Below a directory that holds one directory the walk yields what is below that one, if it is entered. -/
theorem filesBelow_singleDir (w : Walk) (top : Node) (root : Door) (path : RelativePath) (depth : Nat)
    (name : CodeString) (listable : Bool) (es : List Entry) :
    w.filesBelow top root ⟨path, depth, .dir true [(name, .dir listable es)]⟩ =
      if w.enters name (path ++ [name]) depth then
        w.filesBelow top root ⟨path ++ [name], depth + 1, .dir listable es⟩
      else [] := by
  rw [filesBelow_of_sorted (List.pairwise_singleton _ _), dirsAmong_cons]
  show List.flatMap _ ((if w.enters name (path ++ [name]) depth then _ else []) ++ []) = _
  rw [List.append_nil]
  split
  · exact List.flatMap_singleton _ _
  · rfl

/-! ## The loop -/

theorem filesFrom_of_none {stack : List Pending} (h : d.node.listing? = none) :
    w.filesFrom top root (d :: stack) = w.filesFrom top root stack := by
  rw [filesFrom]
  split
  · rfl
  · next hsome =>
    rw [h] at hsome
    cases hsome

theorem filesFrom_of_some {stack : List Pending} (h : d.node.listing? = some entries) :
    w.filesFrom top root (d :: stack) = w.filesAmong top root d.path entries ++
      w.filesFrom top root (w.dirsAmong d entries ++ stack) := by
  rw [filesFrom]
  split
  · next hnone =>
    rw [h] at hnone
    cases hnone
  · next entries' hsome =>
    obtain rfl : entries' = entries := Option.some.inj (hsome.symm.trans h)
    rw [push_reverse]

/-- The loop yields what the recursion yields from each directory on the stack. -/
theorem filesFrom_eq_flatMap (w : Walk) (top : Node) (root : Door) (stack : List Pending) :
    w.filesFrom top root stack = stack.flatMap (w.filesBelow top root) := by
  induction stack using filesFrom.induct w with
  | case1 => rw [filesFrom, List.flatMap_nil]
  | case2 d stack h ih =>
    rw [filesFrom_of_none h, List.flatMap_cons, filesBelow_of_none h, List.nil_append]
    exact ih
  | case3 d stack entries h ih =>
    rw [push_reverse, List.flatMap_append] at ih
    rw [filesFrom_of_some h, List.flatMap_cons, filesBelow_of_some h, List.append_assoc, ih]

/-- The whole walk, by recursion. -/
theorem files_eq_filesBelow (w : Walk) (top : Node) (root : Door) {n : Node}
    (h : top.at? root.place = some n) :
    w.files top root = w.filesBelow top root ⟨[], 0, n⟩ := by
  rw [files, h]
  dsimp only
  split
  · rw [filesFrom_eq_flatMap, List.flatMap_cons, List.flatMap_nil, List.append_nil]
  · next hdir =>
    rw [filesBelow_of_none]
    cases n with
    | dir => exact absurd rfl hdir
    | _ => rfl

/-- Of a directory that holds one file the walk yields that file, if it is wanted. -/
theorem files_singleFile {name : CodeString} {c : Content} (h : w.wants name = true) :
    w.files (.dir true [(name, .file c)]) .top = [[name]] := by
  rw [files_eq_filesBelow _ _ _ rfl, filesBelow_singleFile, if_pos h]
  rfl

end SourceScan.Walk
