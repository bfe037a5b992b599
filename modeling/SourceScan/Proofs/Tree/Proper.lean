import Mathlib.Data.List.Nodup
import Mathlib.Data.List.TakeWhile
import SourceScan.Tree.Walk

/-!
# Trees that a disk can hold

`Node` has more values than there are directory trees: a list of entries may hold a name twice, and any
string may be the name of an entry. `Node.Proper` is what a file system promises of a tree: a directory
has one entry to a name, and a name is not empty, is none of the two that lead elsewhere, holds no slash
and no null, and is as the disk gives it back.

`Node.Holds` says what is at a path of a tree, read off the entries and without a look-up.
-/

namespace SourceScan

namespace FileName

/-- Whether an entry of a directory can have the name. -/
def isProper (name : CodeString) : Bool :=
  name != [] && name != Path.here && name != Path.up && !name.contains slash &&
    !name.contains (.scalar '\x00') && (unencodable? name).isNone && stored name == name

variable {name : CodeString}

theorem slash_not_mem (h : isProper name = true) : slash ∉ name := by
  simp only [isProper, Bool.and_eq_true, Bool.not_eq_true', List.contains_eq_mem,
    decide_eq_false_iff_not] at h
  exact h.1.1.1.2

/-- A slash parts what comes before it from what comes after it. -/
theorem components_append_slash (path rest : CodeString) :
    components (path ++ slash :: rest) = components path ++ components rest :=
  List.splitOnP_append_cons path rest (p := (· == slash)) (beq_self_eq_true slash)

end FileName

namespace Node

/-- A tree that a disk can hold. -/
inductive Proper : Node → Prop
  | file (c : Content) : Proper (file c)
  | link (target : CodeString) : Proper (link target)
  | dir {listable : Bool} {entries : List Entry} (distinct : (entries.map (·.1)).Nodup)
      (names : ∀ e ∈ entries, FileName.isProper e.1 = true) (children : ∀ e ∈ entries, Proper e.2) :
      Proper (dir listable entries)

/-- The tree holds an entry at a path: the names on the way are those of entries. -/
inductive Holds : Node → Location → Node → Prop
  | here (n : Node) : Holds n [] n
  | entry {listable : Bool} {entries : List Entry} {name : CodeString} {m k : Node}
      {rest : Location} : (name, m) ∈ entries → Holds m rest k →
      Holds (dir listable entries) (name :: rest) k

variable {n m k : Node} {entries : List Entry} {listable : Bool} {name : CodeString}
  {path : Location}

/-- A directory of one entry is proper if the name and the entry are. -/
theorem Proper.single (hname : FileName.isProper name = true) (hm : m.Proper) :
    (Node.dir listable [(name, m)]).Proper := by
  refine .dir (List.nodup_singleton _) (fun e he => ?_) fun e he => ?_
  · rw [List.mem_singleton.mp he]
    exact hname
  · rw [List.mem_singleton.mp he]
    exact hm

theorem holds_nil : n.Holds [] m ↔ m = n := by
  constructor
  · intro h
    cases h
    rfl
  · rintro rfl
    exact .here _

theorem holds_dir_cons :
    (dir listable entries).Holds (name :: path) k ↔ ∃ m, (name, m) ∈ entries ∧ m.Holds path k := by
  constructor
  · intro h
    cases h with
    | entry hmem hrest => exact ⟨_, hmem, hrest⟩
  · intro hfound
    obtain ⟨m, hmem, hrest⟩ := hfound
    exact .entry hmem hrest

namespace Proper

theorem names (h : (Node.dir listable entries).Proper) : ∀ e ∈ entries, FileName.isProper e.1 = true := by
  cases h with
  | dir _ names _ => exact names

theorem children (h : (Node.dir listable entries).Proper) : ∀ e ∈ entries, e.2.Proper := by
  cases h with
  | dir _ _ children => exact children

theorem distinct (h : (Node.dir listable entries).Proper) : (entries.map (·.1)).Nodup := by
  cases h with
  | dir distinct _ _ => exact distinct

/-- A directory has one entry to a name. -/
theorem entry_unique (h : (Node.dir listable entries).Proper) (hm : (name, m) ∈ entries)
    (hk : (name, k) ∈ entries) : m = k :=
  (Prod.mk.inj (List.inj_on_of_nodup_map h.distinct hm hk rfl)).2

/-- The names on the way to what a proper tree holds are proper. -/
theorem names_of_holds (h : n.Proper) (hk : n.Holds path k) :
    ∀ name ∈ path, FileName.isProper name = true := by
  induction hk with
  | here => exact fun _ hname => absurd hname List.not_mem_nil
  | entry hmem _ ih =>
    intro name hname
    rcases List.mem_cons.mp hname with rfl | hname
    · exact h.names _ hmem
    · exact ih (h.children _ hmem) name hname

/-- What is found by a look-up in a proper tree is proper. -/
theorem of_at? (h : n.Proper) (hk : n.at? path = some k) : k.Proper := by
  induction path generalizing n with
  | nil =>
    cases hk
    exact h
  | cons name rest ih =>
    obtain ⟨m, hm, hrest⟩ := Option.bind_eq_some_iff.mp hk
    cases n with
    | dir listable entries =>
      obtain ⟨as, bs, rfl, _⟩ := List.lookup_eq_some_iff.mp hm
      exact ih (h.children _ (List.mem_append_right as List.mem_cons_self)) hrest
    | file => cases hm
    | link => cases hm

end Proper

end Node

namespace RelativePath

@[simp]
theorem text_singleton (x : CodeString) : text [x] = x := by
  rw [text, CodeString.join, List.intercalate_singleton]

/-- The text of a path gives its names back, if they hold no slash. -/
theorem components_text {p : RelativePath} (hne : p ≠ []) (h : ∀ name ∈ p, FileName.slash ∉ name) :
    FileName.components p.text = p := List.splitOn_intercalate FileName.slash h hne

/-- Paths of proper names are told apart by their texts. -/
theorem eq_of_text_eq {p q : RelativePath} (hp : p ≠ []) (hq : q ≠ [])
    (hpn : ∀ name ∈ p, FileName.isProper name = true) (hqn : ∀ name ∈ q, FileName.isProper name = true)
    (h : p.text = q.text) : p = q := by
  rw [← components_text hp fun name hname => FileName.slash_not_mem (hpn name hname),
    ← components_text hq fun name hname => FileName.slash_not_mem (hqn name hname), h]

end RelativePath

end SourceScan
