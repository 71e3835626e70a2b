import Wamp.Number.Text
import Wamp.Value.Basic

/-!
# The JSON text of a value

Values are written as JSON without spaces. In strings only the quotation mark, the backslash and the
control characters are escaped; numbers that are not finite are written as null. A value that JSON
has no word for is written as null among the items of a list, is left out of a dictionary with its
key, and has no text by itself. A bigint is not meant to be among them: writing one is an error, and
what is rendered holds none. Texts are built as lists of characters, so that what is written can be
read off the front.
-/

namespace Wamp

namespace Json

/-- A hexadecimal digit, in lower case. -/
def hexDigit (n : Nat) : Char := Nat.digitChar (n % 16)

/-- A character as it stands inside a JSON string. -/
def escape (c : Char) : List Char :=
  if c = '"' then ['\\', '"']
  else if c = '\\' then ['\\', '\\']
  else if 0x20 ≤ c.toNat then [c]
  else if c = '\x08' then ['\\', 'b']
  else if c = '\t' then ['\\', 't']
  else if c = '\n' then ['\\', 'n']
  else if c = '\x0c' then ['\\', 'f']
  else if c = '\r' then ['\\', 'r']
  else ['\\', 'u', '0', '0', hexDigit (c.toNat / 16), hexDigit c.toNat]

/-- A string between quotation marks. -/
def quote (s : String) : List Char := '"' :: (s.toList.flatMap escape ++ ['"'])

end Json

/-- The JSON text of a primitive. -/
def Primitive.json : Primitive → List Char
  | .bool true => ['t', 'r', 'u', 'e']
  | .bool false => ['f', 'a', 'l', 's', 'e']
  | .number n => n.json
  | .string s => Json.quote s
  | .undefined | .null | .bigint | .symbol => ['n', 'u', 'l', 'l']

/-- Whether JSON has a word for a primitive. -/
def Primitive.hasJson : Primitive → Bool
  | .null | .bool _ | .number _ | .string _ => true
  | .undefined | .bigint | .symbol => false

/-- Whether JSON has a word for a value; it may still have none for the parts. -/
def Value.hasJson : Value → Bool
  | .primitive p => p.hasJson
  | .function => false
  | .list _ => true
  | .dict _ => true

mutual

/-- The JSON text of a value among the items of a list. -/
def Value.json : Value → List Char
  | .primitive p => p.json
  | .function => ['n', 'u', 'l', 'l']
  | .list items => '[' :: ([','].intercalate (Value.jsonItems items) ++ [']'])
  | .dict entries => '\x7b' :: ([','].intercalate (Value.jsonEntries entries) ++ ['\x7d'])

/-- The JSON texts of items. -/
def Value.jsonItems : List Value → List (List Char)
  | [] => []
  | v :: vs => v.json :: Value.jsonItems vs

/-- The JSON texts of those entries that have one. -/
def Value.jsonEntries : List (String × Value) → List (List Char)
  | [] => []
  | (key, v) :: rest =>
    if v.hasJson then (Json.quote key ++ ':' :: v.json) :: Value.jsonEntries rest
    else Value.jsonEntries rest

end

namespace Value

/-- The JSON text of a value by itself, strings in quotation marks; nothing if it has none. -/
def quoted (v : Value) : String := if v.hasJson then String.ofList v.json else ""

/-- The text of a value in running prose: a string as it is, any other value as JSON. -/
def plain : Value → String
  | .string s => s
  | v => v.quoted

end Value

/-- Texts separated by a comma and a space. -/
def commaSeparated (texts : List String) : String := ", ".intercalate texts

/-- An entry of a dictionary as an assignment, which gives a value without JSON text a word. -/
def assignment (key : String) (value : Value) : String :=
  key ++ "=" ++ if value.hasJson then value.quoted else TypeName.undefined.word

/-- The entries of a dictionary as assignments, separated by commas. -/
def Dict.assignments (d : Dict) : String :=
  commaSeparated (d.map fun (key, value) => assignment key value)

end Wamp
