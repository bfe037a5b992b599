import SourceScan.Text.Quoted
import SourceScan.Tree.Locate

/-!
# The directory that a request names

A request names a directory by a path from the top of the tree. A path that no file system takes is
an error of its own, and so is one that is too long or that links lead round and round; any other
leads to an entry or to none.
-/

namespace SourceScan

/-- The error in words. -/
def PathError.message : PathError → String
  | nullByte => "embedded null byte"
  | unencodable position stretch =>
    let what :=
      match stretch with
      | [p] => "character " ++ Text.quoted [p] ++ " in position " ++ toString position
      | _ => "characters in position " ++ toString position ++ "-" ++
          toString (position + stretch.length - 1)
    "'utf-8' codec can't encode " ++ what ++ ": surrogates not allowed"
  | loop path => "Symlink loop from " ++ Text.quoted path
  | nesting => "maximum recursion depth exceeded"
  | tooLong path => "[Errno 36] File name too long: " ++ Text.quoted path

namespace Node

/-- The most bytes of a name. -/
def maxNameBytes : Nat := 255

/-- The most bytes of a path. -/
def maxPathBytes : Nat := 4095

/-- Whether the names, taken from a place, come to one that is too long and is looked up: everything
before it exists and is a directory. -/
def meetsLongName (top : Node) (here : Location) : List CodeString → Bool
  | [] => false
  | name :: rest =>
    match top.at? here with
    | some (dir _ _) =>
      decide (maxNameBytes < FileName.byteLength name) || meetsLongName top (here ++ [name]) rest
    | _ => false

/-- Whether opening a place fails because its path or a name in it is too long. Of what is outside, only
the root is known to exist. -/
def isTooLong (top : Node) (s : Spot) : Bool :=
  decide (maxPathBytes < FileName.byteLength s.text) ||
    match s with
    | .inside place => top.meetsLongName [] place
    | .outside names =>
      match names.dropWhile (· == []) with
      | name :: _ => names.head? == some [] && decide (maxNameBytes < FileName.byteLength name)
      | [] => false

/-- Opens a place: the entry there, if there is one, with the links that may still be taken from it. -/
def openSpot (top : Node) (s : Spot) : Except PathError (Option (Door × Node)) :=
  if top.isTooLong s then .error (.tooLong s.text)
  else
    match s with
    | .outside _ => .ok none
    | .inside place =>
      match top.followSteps Path.maxLinks [] place with
      | .ok d => .ok ((top.at? d.place).map (d, ·))
      | .error .tooManyLinks => .error (.loop s.text)
      | .error .missing => .ok none

/-- The entry that a request names, if there is one, with the links that may still be taken from it. A
path that is left behind a link without a place is first brought into order by writing alone, and only
then looked up, as a whole. -/
def named (top : Node) (path : CodeString) : Except PathError (Option (Door × Node)) := do
  match ← top.resolve path with
  | .at spot => top.openSpot spot
  | .looping path =>
    let spot := Spot.ofPath path
    match PathError.ofString? 0 spot.text with
    | some e => .error e
    | none => top.openSpot spot

end Node

end SourceScan
