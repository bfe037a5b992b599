import SourceScan.Scan
import SourceScan.Tree.Root

/-!
# The service

The same scan as a service offers it: the request is the body of a call, checked as a whole before
anything is done, and a path that leads to no directory is a bad request.
-/

namespace SourceScan

/-- The body of a call. -/
structure ScanRequest where
  path : CodeString
  analyzer : Analyzer := .security
  options : Config := {}
  deriving Repr, DecidableEq

namespace ScanRequest

/-- The name of the form. -/
def form : String := "ScanRequest"

/-- Checks a JSON value. -/
def check : Json → Checked ScanRequest :=
  Json.checkObject form fun ms =>
    ScanRequest.mk
      <$> Json.required ms "path" Json.checkString
      <*> Json.optional ms "analyzer" .security Analyzer.check
      <*> Json.optional ms "options" {} Config.check

/-- Reads a request. -/
def ofJson (v : Json) : Except Invalid ScanRequest := (check v).toExcept form

end ScanRequest

/-- What a call is answered with. -/
inductive Reply
  | ok (r : ScanResult)
  | badRequest (detail : CodeString)
  deriving Repr, DecidableEq

/-- Why a call is not answered. -/
inductive ServiceError
  | invalid (i : Invalid)
  | path (e : PathError)
  deriving Repr, DecidableEq

namespace Service

/-- The status code of a reply. -/
def status : Reply → Nat
  | .ok _ => 200
  | .badRequest _ => 400

/-- Answers a call whose body is in order. -/
def answer (request : ScanRequest) (time : RunTime) (top : Node) : Except PathError Reply :=
  match top.named request.path with
  | .error e => .error e
  | .ok none => .ok (.badRequest (CodeString.ofString "Path does not exist: " ++ request.path))
  | .ok (some (root, .dir _ _)) =>
    .ok (.ok (SourceScan.scan request.analyzer request.options time top root))
  | .ok (some _) =>
    .ok (.badRequest (CodeString.ofString "Path is not a directory: " ++ request.path))

/-- Answers a call to scan a directory. -/
def scan (body : Json) (time : RunTime) (top : Node) : Except ServiceError Reply :=
  match ScanRequest.ofJson body with
  | .error i => .error (.invalid i)
  | .ok request =>
    match answer request time top with
    | .ok reply => .ok reply
    | .error e => .error (.path e)

/-- The answer to a call that asks whether the service is up. -/
def health : Json := .object [("status", .text "ok")]

end Service

end SourceScan
