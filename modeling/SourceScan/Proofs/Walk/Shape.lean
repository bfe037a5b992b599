import SourceScan.Proofs.Tree.Shape
import SourceScan.Proofs.Walk.Recursion

/-!
# The walk does not ask what files hold

A walk yields the same paths in trees of one shape (`files_shape`): every step of the recursion looks at
names, directories and where links lead, and at no contents.
-/

namespace SourceScan.Walk

variable {w : Walk} {top : Node} {root : Door}

/-- A directory that is still to be listed, without what the files in it hold. -/
def Pending.shape (d : Pending) : Pending := { d with node := d.node.shape }

theorem filesAmong_shape (w : Walk) (top : Node) (root : Door) (here : RelativePath)
    (entries : List Entry) :
    w.filesAmong top.shape root here (Node.shapes entries) = w.filesAmong top root here entries := by
  rw [filesAmong, Node.shapes_eq_map, List.filterMap_map]
  refine List.filterMap_congr fun e _ => ?_
  simp only [Function.comp_apply, Node.isDir_shape, Node.isFileAt_shape]

theorem dirsAmong_shape (w : Walk) (d : Pending) (entries : List Entry) :
    w.dirsAmong d.shape (Node.shapes entries) = (w.dirsAmong d entries).map Pending.shape := by
  rw [dirsAmong, Node.shapes_eq_map, List.filterMap_map, dirsAmong, List.map_filterMap]
  refine List.filterMap_congr fun e _ => ?_
  simp only [Function.comp_apply, Node.isDir_shape, Pending.shape, apply_ite (Option.map _),
    Option.map_some, Option.map_none]

theorem filesBelow_shape (w : Walk) (top : Node) (root : Door) (d : Pending) :
    w.filesBelow top.shape root d.shape = w.filesBelow top root d := by
  induction d using filesBelow.induct w with
  | case1 d h =>
    have hnone : d.shape.node.listing? = none := by
      rw [Pending.shape, Node.listing?_shape, h]
      rfl
    rw [filesBelow_of_none h, filesBelow_of_none hnone]
  | case2 d entries h ih =>
    have hsome : d.shape.node.listing? = some (Node.shapes entries) := by
      rw [Pending.shape, Node.listing?_shape, h]
      rfl
    rw [filesBelow_of_some h, filesBelow_of_some hsome, filesAmong_shape, dirsAmong_shape,
      List.flatMap_map, List.flatMap_congr fun s hs => ih s hs]
    rfl

/-- What a walk yields is read off the shape of the tree. -/
theorem files_shape (w : Walk) (top : Node) (root : Door) :
    w.files top.shape root = w.files top root := by
  cases h : top.at? root.place with
  | none =>
    have hnone : top.shape.at? root.place = none := by
      rw [Node.at?_shape, h]
      rfl
    rw [files, hnone, files, h]
  | some n =>
    have hsome : top.shape.at? root.place = some n.shape := by
      rw [Node.at?_shape, h]
      rfl
    rw [files_eq_filesBelow w top root h, files_eq_filesBelow w top.shape root hsome]
    exact filesBelow_shape w top root ⟨[], 0, n⟩

end SourceScan.Walk
