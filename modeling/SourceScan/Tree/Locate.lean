import SourceScan.Tree.Node

/-!
# Finding a place in a tree

A path leads from a directory to a place by the names between its slashes: an empty name and `.` stay,
`..` goes up, and a symbolic link leads on by its target.

There are two ways to follow a path. To open an entry (`follow`), everything on the way has to exist,
what a name or `.` or a slash comes after has to be a directory, and a path that takes more than
`maxLinks` links leads nowhere. A directory that was itself reached through links leaves fewer of
them for what is opened from there (`Door`).

To name a place (`resolve`), what does not exist is taken for a plain name, so that `..` takes it
back. A link that leads back to itself has no place; from there on the rest is put behind the link as
it is written, which leaves the rest alone if that begins with a slash. A name that no file system
takes is an error as soon as it is looked up, and a name that `..` goes back over was looked up before.

What lies above the top of the tree, or is named by an absolute path, is outside, where nothing is
known to exist. So a link that leads out of the tree leads nowhere here (`Node.link`).
-/

namespace SourceScan

namespace Path

/-- The name of the directory itself. -/
def here : CodeString := "."

/-- The name of the directory above. -/
def up : CodeString := ".."

/-- Whether a path begins with a slash. -/
def isAbsolute (path : CodeString) : Bool := path.head? == some FileName.slash

/-- The names of a path without those that stay. -/
def names (path : CodeString) : List CodeString :=
  (FileName.components path).filter fun c => c != [] && c != here

/-- The steps of a path when each is taken: the names, `.` among them, and one more `.` for a slash
at the end, which asks for a directory. -/
def steps (path : CodeString) : List CodeString :=
  (FileName.components path).filter (· != []) ++
    if path.getLast? == some FileName.slash then [here] else []

/-- The most links that opening an entry may take. -/
def maxLinks : Nat := 40

/-- The most links that may be followed one inside the other while a place is named. This is a constant neither of
the program nor of a file system: each link takes a call inside that of the one before it, and so many are left of a
limit of 1000 calls where a path is resolved, the calls under way there being off it. -/
def maxNested : Nat := 970

/-- A path with another put behind it, a slash between them; one that begins with a slash stands for
itself. -/
def join (path rest : CodeString) : CodeString :=
  if isAbsolute rest then rest
  else if path.isEmpty || path.getLast? == some FileName.slash then path ++ rest
  else path ++ FileName.slash :: rest

end Path

/-- Why a path leads to no entry. -/
inductive Lost
  | missing
  | tooManyLinks
  deriving Repr, DecidableEq

/-- A place that paths start from, and how many links may still be taken on the way from there. -/
structure Door where
  place : Location
  links : Nat := Path.maxLinks
  deriving Repr, DecidableEq

namespace Door

/-- A place that no link was taken to. -/
def atPlace (place : Location) : Door := ⟨place, Path.maxLinks⟩

/-- The top of the tree. -/
def top : Door := atPlace []

/-- A directory further down on the way without links. -/
def below (d : Door) (names : Location) : Door := { d with place := d.place ++ names }

end Door

namespace Node

/-- Follows steps from a location to the place of an entry that exists and is no link. `links` is how
many links may still be taken. Nothing is found above the top, or behind a link whose target is absolute: an entry
that leads there on a disk is to be given in the tree by what it leads to. -/
def followSteps (top : Node) (links : Nat) (here : Location) (todo : List CodeString) :
    Except Lost Door :=
  match todo with
  | [] => .ok ⟨here, links⟩
  | name :: rest =>
    match top.at? here with
    | some (dir _ _) =>
      if name == Path.here then followSteps top links here rest
      else if name == Path.up then
        match here.reverse with
        | [] => .error .missing
        | _ :: above => followSteps top links above.reverse rest
      else
        match top.at? (here ++ [name]) with
        | none => .error .missing
        | some (link target) =>
          match links with
          | 0 => .error .tooManyLinks
          | links + 1 =>
            if Path.isAbsolute target then .error .missing
            else followSteps top links here (Path.steps target ++ rest)
        | some _ => followSteps top links (here ++ [name]) rest
    | _ => .error .missing
termination_by (links, todo.length)

/-- The place that a path leads to from a directory. -/
def follow (top : Node) (start : Door) (path : CodeString) : Except Lost Door :=
  if Path.isAbsolute path then .error .missing
  else followSteps top start.links start.place (Path.steps path)

/-- The entry that a path leads to from a directory, if there is one. -/
def open? (top : Node) (start : Door) (path : CodeString) : Option Node :=
  (top.follow start path).toOption.bind fun d => top.at? d.place

/-- Whether an entry of the directory `here` is a file, itself or where its link leads. -/
def isFileAt (top : Node) (here : Door) (name : CodeString) : Node → Bool
  | file _ => true
  | dir _ _ => false
  | link _ =>
    match top.open? here name with
    | some (file _) => true
    | _ => false

end Node

/-- Why a path cannot be followed at all. -/
inductive PathError
  | nullByte
  /-- A stretch of lone halves of surrogate pairs, and where it begins in the path looked up. -/
  | unencodable (position : Nat) (stretch : CodeString)
  | loop (path : CodeString)
  /-- Too many links one inside the other. -/
  | nesting
  | tooLong (path : CodeString)
  deriving Repr, DecidableEq

/-- What is wrong with a string as part of a path, if anything is; `before` is the length of the path
before it. -/
def PathError.ofString? (before : Nat) (s : CodeString) : Option PathError :=
  match FileName.unencodable? s with
  | some (place, stretch) => some (.unencodable (before + place) stretch)
  | none => if s.contains (.scalar '\x00') then some .nullByte else none

/-- A place that need not exist: one in the tree, or one outside with the names that lead there. An
absolute path has the empty name first, and one more if it is written with two slashes. -/
inductive Spot
  | inside (place : Location)
  | outside (names : List CodeString)
  deriving Repr, DecidableEq

namespace Spot

/-- The names that lead to the place. -/
def names : Spot → List CodeString
  | inside place => place
  | outside names => names

/-- The place of a name in the directory. -/
def child (name : CodeString) : Spot → Spot
  | inside place => inside (place ++ [name])
  | outside names => outside (names ++ [name])

/-- The directory above. Above the root of all is the root. -/
def parent : Spot → Spot
  | inside place =>
    match place.reverse with
    | [] => outside [Path.up]
    | _ :: above => inside above.reverse
  | outside names =>
    match names.reverse with
    | last :: above =>
      if last == Path.up then outside (names ++ [Path.up])
      else if last == [] then outside names
      else outside above.reverse
    | [] => outside names

/-- The path of the place. -/
def text (s : Spot) : CodeString := CodeString.join "/" s.names

/-- What is wrong with looking up a name in the directory, if anything is. -/
def lookupError? (s : Spot) (name : CodeString) : Option PathError :=
  PathError.ofString? (s.child []).text.length name

/-- The place that a path leads to by writing alone, each `..` taking back the name before it. Two
slashes at the front stay two, and more are one. -/
def ofPath (path : CodeString) : Spot :=
  let start :=
    match path.takeWhile (· == FileName.slash) with
    | [] => inside []
    | [_, _] => outside [[], []]
    | _ => outside [[]]
  (Path.names path).foldl (fun s name => if name == Path.up then s.parent else s.child name) start

end Spot

/-- What is known of the links met on the way: where each leads, or nothing while it is being followed.
The last word on a link comes first. -/
abbrev Trail := List (Location × Option Spot)

/-- Where a path leads that need not exist. -/
inductive Resolved
  | at (spot : Spot)
  /-- A link on the way leads back to itself: its path with what was left behind it. -/
  | looping (path : CodeString)
  deriving Repr, DecidableEq

namespace Node

/-- Follows the names between slashes from a place as far as they lead, whether the places exist or not.
A link that was followed before leads where it led then, and one that is still being followed leads back
to itself. `links` is how many links may be begun inside of those that are being followed. -/
def resolveNames (top : Node) (links : Nat) (trail : Trail) (here : Spot) (todo : List CodeString) :
    Except PathError (Resolved × Trail) :=
  match todo with
  | [] => .ok (.at here, trail)
  | name :: rest =>
    if name == [] || name == Path.here then resolveNames top links trail here rest
    else if name == Path.up then resolveNames top links trail here.parent rest
    else
      match here.lookupError? name with
      | some e => .error e
      | none =>
        let next := here.child name
        match next with
        | .outside _ => resolveNames top links trail next rest
        | .inside place =>
          match top.at? place with
          | some (link target) =>
            match trail.lookup place, links with
            | some (some spot), links => resolveNames top links trail spot rest
            | some none, _ => .ok (.looping (Path.join next.text (CodeString.join "/" rest)), trail)
            | none, 0 => .error .nesting
            | none, links + 1 =>
              let start := if Path.isAbsolute target then .outside [[]] else here
              let names := FileName.components (FileName.stored target)
              match resolveNames top links ((place, none) :: trail) start names with
              | .ok (.at spot, trail) =>
                resolveNames top (links + 1) ((place, some spot) :: trail) spot rest
              | .ok (.looping path, trail) =>
                .ok (.looping (Path.join path (CodeString.join "/" rest)), trail)
              | .error e => .error e
          | _ => resolveNames top links trail next rest
termination_by (links, todo.length)

/-- The place that a path names, seen from the top of the tree. -/
def resolve (top : Node) (path : CodeString) : Except PathError Resolved := do
  let start := if Path.isAbsolute path then .outside [[]] else .inside []
  return (← resolveNames top Path.maxNested [] start (Path.names path)).1

end Node

end SourceScan
