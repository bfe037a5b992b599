import SourceScan.Json.Value
import SourceScan.Text.Quoted

/-!
# How a message writes a value

A message that is about a value shows it in a notation of its own: constants have capitals, strings
stand in quotation marks of either kind, and lists and objects are written with a comma and a blank
between their parts.
-/

namespace SourceScan.Json

mutual

/-- A value as a message writes it. -/
def literal : Json → String
  | null => "None"
  | bool b => if b then "True" else "False"
  | int n => toString n
  | real x => x.text
  | str s => Text.quoted s
  | arr items => "[" ++ ", ".intercalate (itemLiterals items) ++ "]"
  | obj members => "\x7b" ++ ", ".intercalate (memberLiterals members) ++ "\x7d"

/-- The items of an array as a message writes them. -/
def itemLiterals : List Json → List String
  | [] => []
  | v :: rest => literal v :: itemLiterals rest

/-- The members of an object as a message writes them. -/
def memberLiterals : List (CodeString × Json) → List String
  | [] => []
  | (name, v) :: rest => (Text.quoted name ++ ": " ++ literal v) :: memberLiterals rest

end

/-- A value as a message writes it where a string needs no quotation marks. -/
def spelled : Json → CodeString
  | str s => s
  | v => v.literal

end SourceScan.Json
