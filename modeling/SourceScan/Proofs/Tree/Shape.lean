import SourceScan.Proofs.Tree.Proper
import SourceScan.Tree.Walk

/-!
# Trees without the contents of their files

The shape of a tree is the tree with every file shut. Paths lead in it to the same places, and links to the
same files (`followSteps_shape`, `isFileAt_shape`). Trees that differ at one file have one shape
(`DifferAt.shape_eq`), and at every place they hold the same, or both hold the trees that differ on
(`DifferAt.at?_eq_or`).
-/

namespace SourceScan.Node

mutual

/-- The tree without what its files hold. -/
def shape : Node → Node
  | file _ => file .shut
  | dir listable entries => dir listable (shapes entries)
  | link target => link target

/-- The entries of a directory without what files hold. -/
def shapes : List (CodeString × Node) → List (CodeString × Node)
  | [] => []
  | (name, n) :: rest => (name, n.shape) :: shapes rest

end

variable {n m top : Node} {name : CodeString} {entries : List (CodeString × Node)}

theorem shapes_eq_map (entries : List (CodeString × Node)) :
    shapes entries = entries.map fun e => (e.1, e.2.shape) := by
  induction entries with
  | nil => rw [shapes, List.map_nil]
  | cons e rest ih => rw [shapes, List.map_cons, ih]

theorem isDir_shape (n : Node) : n.shape.isDir = n.isDir := by
  cases n <;> rw [shape] <;> rfl

theorem lookup_shapes (entries : List (CodeString × Node)) (name : CodeString) :
    (shapes entries).lookup name = (entries.lookup name).map shape := by
  induction entries with
  | nil => rw [shapes]; rfl
  | cons e rest ih =>
    rw [shapes, List.lookup_cons, List.lookup_cons]
    cases name == e.1 with
    | true => rfl
    | false => exact ih

theorem child?_shape (n : Node) (name : CodeString) :
    n.shape.child? name = (n.child? name).map shape := by
  cases n with
  | file => rw [shape]; rfl
  | link => rw [shape]; rfl
  | dir listable entries => rw [shape, child?, lookup_shapes, child?]

theorem at?_shape (n : Node) (place : Location) : n.shape.at? place = (n.at? place).map shape := by
  induction place generalizing n with
  | nil => rfl
  | cons name rest ih =>
    rw [at?, child?_shape, at?]
    cases n.child? name with
    | none => rfl
    | some m => exact ih m

theorem followSteps_shape (top : Node) (links : Nat) (here : Location) (todo : List CodeString) :
    top.shape.followSteps links here todo = top.followSteps links here todo := by
  fun_induction followSteps top links here todo with
  | case1 => rw [followSteps]
  | case9 _ _ _ _ _ _ _ _ _ n hlink =>
    rw [followSteps]
    cases n with
    | link target => exact absurd rfl (hlink target)
    | _ => simp_all [at?_shape, shape]
  | case10 _ here _ _ hdir =>
    rw [followSteps, at?_shape]
    cases hn : top.at? here with
    | none => rfl
    | some n =>
      cases n with
      | dir listable entries => exact absurd hn (hdir listable entries)
      | _ => simp only [Option.map_some, shape]
  | _ =>
    rw [followSteps]
    simp_all [at?_shape, shape]

theorem follow_shape (top : Node) (start : Door) (path : CodeString) :
    top.shape.follow start path = top.follow start path := by
  rw [follow, follow, followSteps_shape]

theorem open?_shape (top : Node) (start : Door) (path : CodeString) :
    top.shape.open? start path = (top.open? start path).map shape := by
  rw [open?, follow_shape, open?]
  cases top.follow start path with
  | error e => rfl
  | ok d => exact at?_shape top d.place

theorem isFileAt_shape (top : Node) (here : Door) (name : CodeString) (n : Node) :
    top.shape.isFileAt here name n.shape = top.isFileAt here name n := by
  cases n with
  | link target =>
    simp only [shape, isFileAt, open?_shape]
    cases top.open? here name with
    | none => rfl
    | some m => cases m <;> simp only [Option.map_some, shape]
  | _ => rw [shape]; rfl

theorem listing?_shape (n : Node) : n.shape.listing? = n.listing?.map shapes := by
  match n with
  | file c => rw [shape]; rfl
  | link target => rw [shape]; rfl
  | dir false entries => rw [shape]; rfl
  | dir true entries =>
    rw [shape, listing?, listing?, Option.map_some, shapes_eq_map, shapes_eq_map]
    have hsort := List.map_mergeSort (r := fun a b : CodeString × Node => a.1.le b.1)
      (s := fun a b : CodeString × Node => a.1.le b.1) (f := fun e => (e.1, e.2.shape)) (l := entries)
      fun _ _ _ _ => rfl
    exact congrArg some hsort.symm

/-- The trees are the same but for what the file at a place holds. -/
inductive DifferAt : Location → Node → Node → Prop
  | file (c c' : Content) : DifferAt [] (file c) (file c')
  | dir {place : Location} {name : CodeString} {n m : Node} (listable : Bool)
      (before after : List (CodeString × Node)) : DifferAt place n m →
      DifferAt (name :: place) (dir listable (before ++ (name, n) :: after))
        (dir listable (before ++ (name, m) :: after))

namespace DifferAt

variable {place : Location}

theorem shape_eq (h : DifferAt place n m) : n.shape = m.shape := by
  induction h with
  | file c c' => rw [shape, shape]
  | dir listable before after _ ih =>
    simp only [shape, shapes_eq_map, List.map_append, List.map_cons, ih]

/-- At every other place the same is found, or what is found differs itself. -/
theorem at?_eq_or (h : DifferAt place n m) (path : Location) :
    n.at? path = m.at? path ∨
      ∃ rest k k', place = path.map FileName.stored ++ rest ∧ n.at? path = some k ∧
        m.at? path = some k' ∧ DifferAt rest k k' := by
  induction path generalizing n m place with
  | nil => exact Or.inr ⟨place, n, m, rfl, rfl, rfl, h⟩
  | cons x path ih =>
    cases h with
    | file c c' => exact Or.inl rfl
    | @dir rest name n m listable before after h =>
      simp only [at?, child?, List.lookup_append, List.lookup_cons]
      cases before.lookup (FileName.stored x) with
      | some k => exact Or.inl rfl
      | none =>
        cases hx : FileName.stored x == name with
        | false => exact Or.inl rfl
        | true =>
          rw [List.map_cons, eq_of_beq hx]
          rcases ih h with heq | ⟨rest, k, k', hplace, hk, hk', hdiffer⟩
          · exact Or.inl heq
          · exact Or.inr ⟨rest, k, k', congrArg (name :: ·) hplace, hk, hk', hdiffer⟩

end DifferAt

end SourceScan.Node
