import SourceScan.Json.Value
import SourceScan.Number.IntegerText

/-!
# Reading JSON

`Json.read` reads a text as one JSON value. Besides the standard's values it takes `NaN`, `Infinity`
and `-Infinity`; control characters in strings and a byte order mark are refused.

A text that is not JSON has a first place at which this shows, and a reason (`ReadError.malformed`). Texts of
two kinds are JSON and are refused all the same, because they pass a limit (`Limit`): those with an integer of
more than `IntegerText.maxDigits` digits, and those with containers nested more than `maxDepth` deep. What comes
first in the text decides.
-/

namespace SourceScan.Json

/-- Why a text is not JSON. -/
inductive Reason
  | value
  | propertyName
  | colon
  | comma
  | extraData
  | unterminated
  | controlCharacter
  | escape
  | unicodeEscape
  | byteOrderMark
  deriving Repr, DecidableEq

/-- The reason in words. -/
def Reason.message : Reason → String
  | value => "Expecting value"
  | propertyName => "Expecting property name enclosed in double quotes"
  | colon => "Expecting ':' delimiter"
  | comma => "Expecting ',' delimiter"
  | extraData => "Extra data"
  | unterminated => "Unterminated string starting at"
  | controlCharacter => "Invalid control character at"
  | escape => "Invalid \\escape"
  | unicodeEscape => "Invalid \\uXXXX escape"
  | byteOrderMark => "Unexpected UTF-8 BOM (decode using utf-8-sig)"

/-- The two kinds of container. -/
inductive Container
  | array
  | object
  deriving Repr, DecidableEq

/-- A limit that a text passes: an integer with too many digits, or a container too deep. -/
inductive Limit
  | digits (count : Nat)
  | nesting (container : Container)
  deriving Repr, DecidableEq

/-- The most containers that may be open at once. This is a constant neither of the program nor of the format: each
open container takes a call, and so many are left of a limit of 1000 calls where the text is read, the calls under way
there being off it. Their number is taken to be the same wherever a text is read. -/
def maxDepth : Nat := 970

/-- The limit in words. -/
def Limit.message : Limit → String
  | digits count =>
    "Exceeds the limit (" ++ toString IntegerText.maxDigits ++ " digits) for integer string conversion: value has "
      ++ toString count ++ " digits; use sys.set_int_max_str_digits() to increase the limit"
  | nesting .array =>
    "maximum recursion depth exceeded while decoding a JSON array from a unicode string"
  | nesting .object =>
    "maximum recursion depth exceeded while decoding a JSON object from a unicode string"

/-- Why a text could not be read: it is not JSON, as the place shows, or it passes a limit. -/
inductive ReadError
  | malformed (reason : Reason) (place : Nat)
  | limit (l : Limit)
  deriving Repr, DecidableEq

/-- What a reader returns: what it read, and the place and the text from which to go on. -/
abbrev Reading (α : Type) := Except ReadError (α × Nat × CodeString)

/-- The white space of JSON. -/
def isSpace (c : Char) : Bool := c == ' ' || c == '\t' || c == '\n' || c == '\r'

/-- Passes over white space. -/
def skipSpace : Nat → CodeString → Nat × CodeString
  | place, .scalar c :: rest =>
    if isSpace c then skipSpace (place + 1) rest else (place, .scalar c :: rest)
  | place, cs => (place, cs)

/-! ## Strings -/

/-- The value of a hexadecimal digit. -/
def hexDigit? (c : Char) : Option Nat :=
  if '0' ≤ c && c ≤ '9' then some (c.toNat - 48)
  else if 'a' ≤ c && c ≤ 'f' then some (c.toNat - 87)
  else if 'A' ≤ c && c ≤ 'F' then some (c.toNat - 55)
  else none

/-- Four hexadecimal digits, and the text after them. -/
def hexQuad? : CodeString → Option (Nat × CodeString)
  | .scalar a :: .scalar b :: .scalar c :: .scalar d :: rest => do
    let a ← hexDigit? a
    let b ← hexDigit? b
    let c ← hexDigit? c
    let d ← hexDigit? d
    return (((a * 16 + b) * 16 + c) * 16 + d, rest)
  | _ => none

/-- The character that a backslash and one letter stand for. -/
def shortEscape? : Char → Option Char
  | '\x22' => some '\x22'
  | '\\' => some '\\'
  | '/' => some '/'
  | 'b' => some '\x08'
  | 'f' => some '\x0c'
  | 'n' => some '\n'
  | 'r' => some '\r'
  | 't' => some '\t'
  | _ => none

/-- The code point of a number below 65536. -/
def codePoint (n : Nat) : CodePoint :=
  if h : 0xD800 ≤ n ∧ n ≤ 0xDFFF then .lone ⟨n, h.1, h.2⟩ else .scalar (Char.ofNat n)

/-- The low half of a pair that an escape directly after a high half names, with the text after it.
An escape that the text ends with is not looked at. -/
inductive LowHalf
  | absent
  | malformed
  | present (low : Nat) (rest : CodeString)

/-- Looks for the low half of a pair. -/
def lowHalf : CodeString → LowHalf
  | .scalar '\\' :: .scalar 'u' :: rest =>
    if (rest.drop 4).isEmpty then .absent
    else
      match hexQuad? rest with
      | none => .malformed
      | some (low, rest) => if 0xDC00 ≤ low && low ≤ 0xDFFF then .present low rest else .absent
  | _ => .absent

/-- Reads the rest of a string that opened at place `start`. The code points read so far are in
`done`, in reverse; `fuel` is at least the length of the text. -/
def readString (start : Nat) :
    (fuel place : Nat) → CodeString → (done : CodeString) → Reading CodeString
  | 0, _, _, _ => .error (.malformed .unterminated start)
  | _ + 1, _, [], _ => .error (.malformed .unterminated start)
  | fuel + 1, place, .lone half :: rest, done =>
    readString start fuel (place + 1) rest (.lone half :: done)
  | fuel + 1, place, .scalar c :: rest, done =>
    if c == '\x22' then .ok (done.reverse, place + 1, rest)
    else if c.toNat < 0x20 then .error (.malformed .controlCharacter place)
    else if c != '\\' then readString start fuel (place + 1) rest (.scalar c :: done)
    else
      match rest with
      | [] => .error (.malformed .unterminated start)
      | .scalar 'u' :: rest =>
        match hexQuad? rest with
        | some (high, next :: rest) =>
          if 0xD800 ≤ high && high ≤ 0xDBFF then
            match lowHalf (next :: rest) with
            | .absent => readString start fuel (place + 6) (next :: rest) (codePoint high :: done)
            | .malformed => .error (.malformed .unicodeEscape (place + 7))
            | .present low rest =>
              let joined := 0x10000 + (high - 0xD800) * 0x400 + (low - 0xDC00)
              readString start fuel (place + 12) rest (.scalar (Char.ofNat joined) :: done)
          else readString start fuel (place + 6) (next :: rest) (codePoint high :: done)
        | _ => .error (.malformed .unicodeEscape (place + 1))
      | e :: rest =>
        match e.char?.bind shortEscape? with
        | some c => readString start fuel (place + 2) rest (.scalar c :: done)
        | none => .error (.malformed .escape place)

/-! ## Numbers -/

/-- The fraction of a number, without its point, and the text after it; a point without a digit is
no fraction. -/
def readFraction : List Char → List Char × List Char
  | '.' :: rest =>
    let digits := rest.takeWhile Char.isDigit
    if digits.isEmpty then ([], '.' :: rest) else (digits, rest.drop digits.length)
  | cs => ([], cs)

/-- The exponent of a number and how many characters it takes; without digits there is none. -/
def readExponent? : List Char → Option (Int × Nat)
  | e :: rest =>
    if e == 'e' || e == 'E' then
      let (negative, signLength, body) :=
        match rest with
        | '-' :: body => (true, 1, body)
        | '+' :: body => (false, 1, body)
        | body => (false, 0, body)
      let digits := body.takeWhile Char.isDigit
      if digits.isEmpty then none
      else
        let n : Int := IntegerText.value digits
        some (if negative then -n else n, 1 + signLength + digits.length)
    else none
  | [] => none

/-- Whether a number may hold the character. -/
def isNumberChar (c : Char) : Bool := c.isDigit || "+-.eE".toList.contains c

/-- The number that a text begins with at a place, and how many characters it takes. -/
def readNumber (place : Nat) (cs : List Char) : Except ReadError (Json × Nat) :=
  let (negative, body) := match cs with | '-' :: body => (true, body) | _ => (false, cs)
  let whole := match body with | '0' :: _ => ['0'] | _ => body.takeWhile Char.isDigit
  if whole.isEmpty then .error (.malformed .value place)
  else
    let (fraction, rest) := readFraction (body.drop whole.length)
    let signLength := if negative then 1 else 0
    let pointLength := if fraction.isEmpty then 0 else fraction.length + 1
    let length := signLength + whole.length + pointLength
    let exponent := readExponent? rest
    if fraction.isEmpty && exponent.isNone then
      if IntegerText.maxDigits < whole.length then .error (.limit (.digits whole.length))
      else
        let n : Int := IntegerText.value whole
        .ok (.int (if negative then -n else n), length)
    else
      let (power, powerLength) := exponent.getD (0, 0)
      .ok (.real (Binary64.ofDecimal negative (IntegerText.value (whole ++ fraction))
        (power - fraction.length)), length + powerLength)

/-! ## Values -/

/-- The words that stand for a value. -/
def words : List (CodeString × Json) := [
  ("null", .null),
  ("true", .bool true),
  ("false", .bool false),
  ("NaN", .real .nan),
  ("Infinity", .real (.infinite false)),
  ("-Infinity", .real (.infinite true))]

/-- The characters that a text begins with and a number may hold. -/
def numberPart (cs : CodeString) : List Char :=
  (cs.takeWhile fun p => p.char?.any isNumberChar).filterMap CodePoint.char?

/-- Reads a word or a number. -/
def readAtom (place : Nat) (cs : CodeString) : Reading Json :=
  match words.find? fun (word, _) => word.isPrefixOf cs with
  | some (word, v) => .ok (v, place + word.length, cs.drop word.length)
  | none => (readNumber place (numberPart cs)).map fun (v, n) => (v, place + n, cs.drop n)

mutual

/-- Reads a value at a place, with `depth` containers left that may be opened. `fuel` is more than
twice the length of the text: a bracket takes one step, and so does the item that follows it, which
may be the text's next character. -/
def readValue : (fuel depth place : Nat) → CodeString → Reading Json
  | 0, _, place, _ => .error (.malformed .value place)
  | fuel + 1, depth, place, .scalar c :: rest =>
    if c == '\x22' then
      match readString place (fuel + 1) (place + 1) rest [] with
      | .error e => .error e
      | .ok (s, place, rest) => .ok (.str s, place, rest)
    else if c == '[' then
      match depth with
      | 0 => .error (.limit (.nesting .array))
      | depth + 1 =>
        let (place, rest) := skipSpace (place + 1) rest
        if rest.head? == some (.scalar ']') then .ok (.arr [], place + 1, rest.drop 1)
        else readItems fuel depth place rest []
    else if c == '\x7b' then
      match depth with
      | 0 => .error (.limit (.nesting .object))
      | depth + 1 =>
        let (place, rest) := skipSpace (place + 1) rest
        if rest.head? == some (.scalar '\x7d') then .ok (.obj [], place + 1, rest.drop 1)
        else readMembers fuel depth place rest []
    else readAtom place (.scalar c :: rest)
  | _ + 1, _, place, _ => .error (.malformed .value place)

/-- Reads the items of an array from the next one on; those read so far are in `done`, in reverse.
`fuel` is at least two more than twice the length of the text. -/
def readItems : (fuel depth place : Nat) → CodeString → (done : List Json) → Reading Json
  | 0, _, place, _, _ => .error (.malformed .value place)
  | fuel + 1, depth, place, cs, done =>
    match readValue fuel depth place cs with
    | .error e => .error e
    | .ok (v, place, rest) =>
      match skipSpace place rest with
      | (place, .scalar ']' :: rest) => .ok (.arr (v :: done).reverse, place + 1, rest)
      | (place, .scalar ',' :: rest) =>
        let (place, rest) := skipSpace (place + 1) rest
        readItems fuel depth place rest (v :: done)
      | (place, _) => .error (.malformed .comma place)

/-- Reads the members of an object from the next one on; those read so far are in `done`, in
reverse. -/
def readMembers : (fuel depth place : Nat) → CodeString → (done : List (CodeString × Json)) →
    Reading Json
  | 0, _, place, _, _ => .error (.malformed .propertyName place)
  | fuel + 1, depth, place, cs, done =>
    match cs with
    | .scalar '\x22' :: rest =>
      match readString place (fuel + 1) (place + 1) rest [] with
      | .error e => .error e
      | .ok (name, place, rest) =>
        match skipSpace place rest with
        | (place, .scalar ':' :: rest) =>
          let (place, rest) := skipSpace (place + 1) rest
          match readValue fuel depth place rest with
          | .error e => .error e
          | .ok (v, place, rest) =>
            match skipSpace place rest with
            | (place, .scalar '\x7d' :: rest) =>
              .ok (.obj (members ((name, v) :: done).reverse), place + 1, rest)
            | (place, .scalar ',' :: rest) =>
              let (place, rest) := skipSpace (place + 1) rest
              readMembers fuel depth place rest ((name, v) :: done)
            | (place, _) => .error (.malformed .comma place)
        | (place, _) => .error (.malformed .colon place)
    | _ => .error (.malformed .propertyName place)

end

/-- Reads a text as one JSON value with nothing but white space around it. -/
def read (cs : CodeString) : Except ReadError Json :=
  if cs.head? == some (.scalar '\uFEFF') then .error (.malformed .byteOrderMark 0)
  else
    let (place, rest) := skipSpace 0 cs
    match readValue (2 * cs.length + 1) maxDepth place rest with
    | .error e => .error e
    | .ok (v, place, rest) =>
      match skipSpace place rest with
      | (_, []) => .ok v
      | (place, _) => .error (.malformed .extraData place)

/-- A reason with the place at which it shows: line and column from 1, characters from 0. -/
def describe (reason : Reason) (place : Nat) (cs : CodeString) : String :=
  let before := cs.take place
  let line := before.count (.scalar '\n') + 1
  let column := (before.reverse.takeWhile (· != .scalar '\n')).length + 1
  reason.message ++ ": line " ++ toString line ++ " column " ++ toString column ++ " (char "
    ++ toString place ++ ")"

end SourceScan.Json
