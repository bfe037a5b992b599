import SourceScan.Number.Binary64
import SourceScan.Text.CodeString

/-!
# JSON values

A string is a string of code points and need not be a text (`CodeString`).

The members of an object keep their order. A name that occurs twice keeps its first place and its
last value (`Json.members`).
-/

namespace SourceScan

/-- A JSON value. Numbers without fraction and exponent are integers of any size. -/
inductive Json
  | null
  | bool (b : Bool)
  | int (n : Int)
  | real (x : Binary64)
  | str (s : CodeString)
  | arr (items : List Json)
  | obj (members : List (CodeString × Json))
  deriving Repr

/-- The members of an object, in order. -/
abbrev Members := List (CodeString × Json)

namespace Json

/-- A text as a string. -/
def text (s : String) : Json := str (CodeString.ofString s)

/-- The text of a value that is one. -/
def text? : Json → Option String
  | str s => s.toString?
  | _ => none

/-- A number, or null for none. -/
def ofNat? : Option Nat → Json
  | some n => int n
  | none => null

/-- A string, or null for none. -/
def ofString? : Option CodeString → Json
  | some s => str s
  | none => null

/-- An object with the members listed. -/
def object (members : List (String × Json)) : Json :=
  obj (members.map fun (name, v) => (CodeString.ofString name, v))

/-- The members of an object from the pairs in the order in which they were written: a name keeps its
first place and its last value. -/
def members (pairs : List (CodeString × Json)) : Members :=
  let latest := pairs.reverse
  (pairs.map (·.1)).eraseDups.filterMap fun name => (latest.lookup name).map (name, ·)

/-- The value of a member. -/
def member? (ms : Members) (name : String) : Option Json := ms.lookup (CodeString.ofString name)

/-- Whether the value counts as something: null, false, zero and what is empty do not. -/
def isSome : Json → Bool
  | null => false
  | bool b => b
  | int n => n != 0
  | real (.finite _ mantissa _) => mantissa != 0
  | real _ => true
  | str s => !s.isEmpty
  | arr items => !items.isEmpty
  | obj ms => !ms.isEmpty

end Json

end SourceScan
