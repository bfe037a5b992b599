import SourceScan.Json.Value
import SourceScan.Number.IntegerText

/-!
# Checking JSON values against a form

A value that should have a certain form is checked part by part, and every part that does not have
it is a `Problem` with the way to it. `Checked` is the outcome: the value read, or all problems in the
order of the parts. Its two halves combine so that the problems of both are kept.

The readers for single parts are lenient where it is plain what is meant: a truth value or a text
that writes an integer counts as one, and so does a number without a fraction.
-/

namespace SourceScan

/-- One step on the way to a part: a member of an object, or an item of an array. -/
inductive Step
  | member (name : String)
  | item (index : Nat)
  deriving Repr, DecidableEq

/-- What is wrong with a part. -/
inductive Fault
  | missing
  | notModel (name : String)
  | notInteger
  | notIntegerText
  | integerTooLarge
  | fractional
  | notFinite
  | below (least : Int)
  | notString
  | emptyString
  | brokenString
  | notList
  | notTuple
  | notMember (names : List String)
  | notLiteral (names : List String)
  deriving Repr, DecidableEq

/-- Names in quotes with commas between them and `or` before the last. -/
def alternatives (names : List String) : String :=
  match (names.map fun n => "'" ++ n ++ "'").reverse with
  | [] => ""
  | [n] => n
  | last :: rest => ", ".intercalate rest.reverse ++ " or " ++ last

namespace Fault

/-- The short name of a fault. -/
def code : Fault → String
  | missing => "missing"
  | notModel _ => "model_type"
  | notInteger => "int_type"
  | notIntegerText => "int_parsing"
  | integerTooLarge => "int_parsing_size"
  | fractional => "int_from_float"
  | notFinite => "finite_number"
  | below _ => "greater_than_equal"
  | notString => "string_type"
  | emptyString => "string_too_short"
  | brokenString => "string_unicode"
  | notList => "list_type"
  | notTuple => "tuple_type"
  | notMember _ => "enum"
  | notLiteral _ => "literal_error"

/-- The fault in words. -/
def message : Fault → String
  | missing => "Field required"
  | notModel name => "Input should be a valid dictionary or instance of " ++ name
  | notInteger => "Input should be a valid integer"
  | notIntegerText => "Input should be a valid integer, unable to parse string as an integer"
  | integerTooLarge => "Unable to parse input string as an integer, exceeded maximum size"
  | fractional => "Input should be a valid integer, got a number with a fractional part"
  | notFinite => "Input should be a finite number"
  | below least => "Input should be greater than or equal to " ++ toString least
  | notString => "Input should be a valid string"
  | emptyString => "String should have at least 1 character"
  | brokenString =>
    "Input should be a valid string, unable to parse raw data as a unicode string"
  | notList => "Input should be a valid list"
  | notTuple => "Input should be a valid tuple"
  | notMember names => "Input should be " ++ alternatives names
  | notLiteral names => "Input should be " ++ alternatives names

end Fault

/-- A fault and the way to the part that has it. -/
structure Problem where
  way : List Step
  fault : Fault
  deriving Repr, DecidableEq

/-- The problems of a value that does not have the form called `form`. -/
structure Invalid where
  form : String
  problems : List Problem
  deriving Repr, DecidableEq

/-- The outcome of a check: the value read, or all problems in order. -/
inductive Checked (α : Type)
  | ok (value : α)
  | bad (problems : List Problem)
  deriving Repr, DecidableEq

namespace Checked

/-- Applies a function to the value. -/
protected def map {α β : Type} (f : α → β) : Checked α → Checked β
  | ok a => ok (f a)
  | bad ps => bad ps

/-- Combines two outcomes; the problems of both are kept, those of the first before the others. -/
protected def both {α β : Type} : Checked α → Checked β → Checked (α × β)
  | ok a, ok b => ok (a, b)
  | bad ps, ok _ => bad ps
  | ok _, bad qs => bad qs
  | bad ps, bad qs => bad (ps ++ qs)

instance : Applicative Checked where
  pure := ok
  map := Checked.map
  seq f x := (Checked.both f (x ())).map fun (f, a) => f a

/-- Puts a step in front of the way to every problem. -/
def under {α : Type} (step : Step) : Checked α → Checked α
  | ok a => ok a
  | bad ps => bad (ps.map fun p => { p with way := step :: p.way })

/-- The outcome as a result, under the name of the form. -/
def toExcept {α : Type} (form : String) : Checked α → Except Invalid α
  | ok a => .ok a
  | bad ps => .error ⟨form, ps⟩

/-- One fault, at the part itself. -/
def fail {α : Type} (f : Fault) : Checked α := bad [⟨[], f⟩]

/-- Refines a value that was read by a further check. -/
def andThen {α β : Type} : Checked α → (α → Checked β) → Checked β
  | ok a, f => f a
  | bad ps, _ => bad ps

end Checked

namespace Json

/-! ## Parts -/

/-- An integer: a number without a fraction, a truth value, or a text that writes one. A number with
an exponent or a fraction part has to lie strictly within the bounds of 64-bit integers. -/
def checkInt : Json → Checked Int
  | int n => .ok n
  | bool b => .ok (if b then 1 else 0)
  | real .nan => .fail .notFinite
  | real (.infinite _) => .fail .notFinite
  | real x =>
    match x.toInt? with
    | none => .fail .fractional
    | some n => if n.natAbs < Nat.pow 2 63 then .ok n else .fail .integerTooLarge
  | str s =>
    match s.toString?.map fun s => IntegerText.read s.toList with
    | some (.ok n) => .ok n
    | some .tooLong => .fail .integerTooLarge
    | some .malformed => .fail .notIntegerText
    | none => .fail .brokenString
  | _ => .fail .notInteger

/-- An integer that is not less than `least`. -/
def checkIntFrom (least : Int) (v : Json) : Checked Int :=
  (checkInt v).andThen fun n => if least ≤ n then .ok n else .fail (.below least)

/-- A string of any kind. -/
def checkString : Json → Checked CodeString
  | str s => .ok s
  | _ => .fail .notString

/-- A text of at least one character. A string that is only passed on may be any; one with a bound on
its length has to be a text. -/
def checkSentence (v : Json) : Checked String :=
  (checkString v).andThen fun s =>
    match s.toString? with
    | none => .fail .brokenString
    | some t => if t == "" then .fail .emptyString else .ok t

/-- Null, or a part that `check` accepts. -/
def checkOption {α : Type} (check : Json → Checked α) : Json → Checked (Option α)
  | null => .ok none
  | v => (check v).map some

/-- The items of a list, each checked, with the index of the first. -/
def checkItems {α : Type} (check : Json → Checked α) : (index : Nat) → List Json → Checked (List α)
  | _, [] => .ok []
  | i, v :: vs => (· :: ·) <$> (check v).under (.item i) <*> checkItems check (i + 1) vs

/-- A list whose items `check` accepts; `fault` is the fault of what is no list. -/
def checkList {α : Type} (fault : Fault) (check : Json → Checked α) : Json → Checked (List α)
  | arr items => checkItems check 0 items
  | _ => .fail fault

/-- A text that is one of the names that `find` knows; `fault` is the fault of every other value but
a string that is no text. -/
def checkName {α : Type} (fault : Fault) (find : String → Option α) : Json → Checked α
  | str s =>
    match s.toString?.map find with
    | some (some a) => .ok a
    | some none => .fail fault
    | none => .fail .brokenString
  | _ => .fail fault

/-- An object whose members `check` accepts. -/
def checkObject {α : Type} (form : String) (check : Members → Checked α) : Json → Checked α
  | obj ms => check ms
  | _ => .fail (.notModel form)

/-- A member that has to be there. -/
def required {α : Type} (ms : Members) (name : String) (check : Json → Checked α) : Checked α :=
  (match member? ms name with
    | some v => check v
    | none => .fail .missing).under (.member name)

/-- A member that may be left out, with its value in that case. -/
def optional {α : Type} (ms : Members) (name : String) (default : α) (check : Json → Checked α) :
    Checked α :=
  match member? ms name with
  | some v => (check v).under (.member name)
  | none => .ok default

end Json

end SourceScan
