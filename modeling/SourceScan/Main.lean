import SourceScan.Command
import Std.Time.DateTime

/-!
# The program

Reads a request from standard input, takes a snapshot of the directory that it names, and prints what
the request asks for. What is printed is decided in `Command`; here the disk is read.

A snapshot holds no links: a link to a file is that file, which is what the walk and the checks by
name take it for, and any other link is left out, since neither of them goes through it. What the
walk will not open is not read either: a directory that it does not enter is left out, and of the
files only those with a wanted extension and those at the root, which may be asked for by name, have
their bytes in the snapshot.
-/

open System

namespace SourceScan.Program

/-- A number in decimal with zeros before it. -/
def padded (width : Nat) (n : Int) : String :=
  let digits := toString n
  "".pushn '0' (width - digits.length) ++ digits

/-- A moment of universal time as ISO 8601 writes it, to the microsecond; a whole second has no
fraction. -/
def momentText (t : Std.Time.PlainDateTime) : String :=
  let micros := t.time.nanosecond.val / 1000
  let date := "-".intercalate [padded 4 t.date.year, padded 2 t.date.month.val,
    padded 2 t.date.day.val]
  let time := ":".intercalate [padded 2 t.time.hour.val, padded 2 t.time.minute.val,
    padded 2 t.time.second.val]
  date ++ "T" ++ time ++ (if micros == 0 then "" else "." ++ padded 6 micros) ++ "+00:00"

/-- The present moment, written. -/
def now : IO String := do
  let moment ← Std.Time.Timestamp.now
  return momentText (.ofWallTime (.ofNanoseconds moment.toNanosecondsSinceUnixEpoch))

/-- The bytes of a file, or a shut file where they cannot be had. -/
def readContent (path : FilePath) : IO Content := do
  match ← (IO.FS.readBinFile path).toBaseIO with
  | .ok bytes => return ((FileBytes.ofBytes? bytes).map Content.open).getD .shut
  | .error _ => return .shut

/-- What a path leads to, its last link followed; nothing if there is no such entry. -/
def kind? (path : FilePath) : BaseIO (Option IO.FS.FileType) := do
  return (← path.metadata.toBaseIO).toOption.map (·.type)

/-- A file of a directory at the path `here` from the root of the walk. -/
def snapshotFile (w : Walk) (here : RelativePath) (entry : IO.FS.DirEntry) : IO Node := do
  if here.isEmpty || w.wants entry.fileName then
    return .file (← readContent entry.path)
  else return .file .shut

/-- The directory at a path; `levels` is how many levels below it may be read. -/
def snapshot (w : Walk) (levels : Nat) (here : RelativePath) (path : FilePath) : IO Node := do
  match levels, ← path.readDir.toBaseIO with
  | _, .error _ => return .dir false []
  | 0, .ok _ => return .dir false []
  | levels + 1, .ok found =>
    let entries ← found.toList.filterMapM fun entry => do
      let name := CodeString.ofString entry.fileName
      let below := here ++ [name]
      match ← entry.path.symlinkMetadata.toBaseIO with
      | .error _ => return none
      | .ok data =>
        match data.type with
        | .dir =>
          if w.enters name below here.length then
            return some (name, ← snapshot w levels below entry.path)
          else return none
        | .file => return some (name, ← snapshotFile w here entry)
        | .symlink =>
          match ← kind? entry.path with
          | some .file => return some (name, ← snapshotFile w here entry)
          | _ => return none
        | .other => return none
    return .dir true entries

/-- More levels than a path of 4096 bytes, the longest that is opened, has names. -/
def allLevels : Nat := 4096

/-- The place that a path leads to; a name that is not there is taken as it is written. -/
def locate (path : String) : IO FilePath := do
  let start ← IO.FS.realPath (if Path.isAbsolute path then "/" else ".")
  ((Path.names path).filterMap CodeString.toString?).foldlM (fun here name => do
    if name == ".." then return here.parent.getD here
    else
      match ← (IO.FS.realPath (here / name)).toBaseIO with
      | .ok place => return place
      | .error _ => return here / name) start

/-- Scans a directory on disk. -/
def scanAt (c : Command) (place : FilePath) : IO ScanResult := do
  let startedAt ← now
  let start ← IO.monoMsNow
  let top ← snapshot (Scan.walk c.analyzer c.config) allLevels [] place
  let result ← IO.lazyPure fun _ => scan c.analyzer c.config ⟨startedAt, 0⟩ top Door.top
  return { result with durationMs := (← IO.monoMsNow) - start }

/-- Carries out a request on the disk. A path that no disk takes fails in an empty tree as well; one that
is no text leads to nothing. -/
def answer (c : Command) : IO (Except Stop Printed) := do
  match Node.emptyDir.named c.path, c.path.toString? with
  | .error e, _ => return .error (.failed (.path e))
  | .ok _, none => return .error (.refused (.notDirectory c.path))
  | .ok _, some path =>
    let place ← locate path
    match ← kind? place with
    | some .dir => return .ok (c.print (← scanAt c place))
    | _ => return .error (.refused (.notDirectory c.path))

/-- Carries out the request in a text. -/
def respond (text : String) : IO (Except CommandError Printed) := do
  let outcome ← match Command.read (.ofChars (Text.unifyNewlines text.toList)) with
    | .ok c => answer c
    | .error s => pure (.error s)
  match outcome with
  | .ok p => return .ok p
  | .error s => return s.printed

end SourceScan.Program

/-- Prints the outcome of the request on standard input and exits with its code, or with 1 and a
message on standard error if there is none. -/
def main : IO UInt32 := do
  match String.fromUTF8? (← (← IO.getStdin).readBinToEnd) with
  | none =>
    IO.eprintln "standard input is not UTF-8"
    return 1
  | some text =>
    match ← SourceScan.Program.respond text with
    | .ok p =>
      (← IO.getStdout).putStr (String.ofList p.text.shown)
      return p.exitCode.toUInt32
    | .error e =>
      IO.eprintln e.message
      return 1
