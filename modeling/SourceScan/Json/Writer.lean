import SourceScan.Json.Value

/-!
# Writing JSON

`Json.render` writes a value on one line in ASCII: a comma and a blank between items, a colon and a
blank after a name, and an escape for every character that is not printable ASCII. Integers are written whatever
their length, also beyond `IntegerText.maxDigits` digits, where the program itself ends in an error.
-/

namespace SourceScan.Json

/-- A hexadecimal digit. -/
def hexDigit (n : Nat) : Char := if n < 10 then Char.ofNat (48 + n) else Char.ofNat (87 + n)

/-- The escape of a number below 65536. -/
def unicodeEscape (n : Nat) : List Char :=
  ['\\', 'u', hexDigit (n / 4096 % 16), hexDigit (n / 256 % 16), hexDigit (n / 16 % 16),
    hexDigit (n % 16)]

/-- A code point inside a string. -/
def escape : CodePoint → List Char
  | .lone half => unicodeEscape half.code
  | .scalar c =>
    let n := c.toNat
    if c == '\x22' then ['\\', '\x22']
    else if c == '\\' then ['\\', '\\']
    else if c == '\n' then ['\\', 'n']
    else if c == '\r' then ['\\', 'r']
    else if c == '\t' then ['\\', 't']
    else if n == 8 then ['\\', 'b']
    else if n == 12 then ['\\', 'f']
    else if 0x20 ≤ n && n < 0x7F then [c]
    else if n < 0x10000 then unicodeEscape n
    else
      let m := n - 0x10000
      unicodeEscape (0xD800 + m / 0x400) ++ unicodeEscape (0xDC00 + m % 0x400)

/-- Adds a string in quotation marks. -/
def renderString (out : String) (s : CodeString) : String :=
  (s.foldl (fun out p => (escape p).foldl String.push out) (out.push '\x22')).push '\x22'

mutual

/-- Adds a value to what is written. -/
def renderTo (out : String) : Json → String
  | null => out ++ "null"
  | bool b => out ++ (if b then "true" else "false")
  | int n => out ++ toString n
  | real .nan => out ++ "NaN"
  | real (.infinite negative) => out ++ (if negative then "-Infinity" else "Infinity")
  | real x => out ++ x.text
  | str s => renderString out s
  | arr items => (renderItems (out.push '[') true items).push ']'
  | obj members => (renderMembers (out.push '\x7b') true members).push '\x7d'

/-- Adds the items of an array; `first` says that none is written yet. -/
def renderItems (out : String) (first : Bool) : List Json → String
  | [] => out
  | v :: rest => renderItems (renderTo (if first then out else out ++ ", ") v) false rest

/-- Adds the members of an object; `first` says that none is written yet. -/
def renderMembers (out : String) (first : Bool) : List (CodeString × Json) → String
  | [] => out
  | (name, v) :: rest =>
    let out := (renderString (if first then out else out ++ ", ") name) ++ ": "
    renderMembers (renderTo out v) false rest

end

/-- The value on one line of ASCII. -/
def render (v : Json) : String := renderTo "" v

end SourceScan.Json
