import Wamp.Assoc
import Wamp.Number.Basic

/-!
# Values

A value is whatever a peer may be handed before it is checked: a primitive, a function, a list, or a
dictionary whose entries keep an order. Only some values may travel in a message
(`Wamp.Value.Wire`); the others are named so that a refusal can say what it was given.
-/

namespace Wamp

/-- A value without parts. -/
inductive Primitive where
  /-- The value of a field that is not there. -/
  | undefined
  | null
  | bool (value : Bool)
  | number (value : Number)
  | string (value : String)
  /-- An integer of the unbounded kind, which no message carries. Writing one as JSON is an error, so
  the arguments and dictionaries that are rendered as text hold none. -/
  | bigint
  /-- A unique token. -/
  | symbol
  deriving DecidableEq

/-- A value of any shape. Values are finite trees: no list and no dictionary holds itself, at any
depth, and reading a part of a value has no effect. -/
inductive Value where
  | primitive (value : Primitive)
  | function
  | list (items : List Value)
  | dict (entries : List (String × Value))

/-- A dictionary: entries in order, with distinct keys. -/
abbrev Dict := List (String × Value)

/-- What a value is, in the words of a refusal. -/
inductive TypeName where
  | undefined | null | boolean | number | nan | string | bigint | symbol | function | array
  | promise | object
  deriving DecidableEq

/-- The word for a type in messages. -/
def TypeName.word : TypeName → String
  | .undefined => "undefined"
  | .null => "null"
  | .boolean => "boolean"
  | .number => "number"
  | .nan => "nan"
  | .string => "string"
  | .bigint => "bigint"
  | .symbol => "symbol"
  | .function => "function"
  | .array => "array"
  | .promise => "promise"
  | .object => "object"

/-- What a primitive is, where a number that is none has a word of its own. -/
def Primitive.typeName : Primitive → TypeName
  | .undefined => .undefined
  | .null => .null
  | .bool _ => .boolean
  | .number .nan => .nan
  | .number _ => .number
  | .string _ => .string
  | .bigint => .bigint
  | .symbol => .symbol

namespace Value

/-- The value of a field that is not there. -/
@[match_pattern] abbrev undefined : Value := .primitive .undefined

/-- The null value. -/
@[match_pattern] abbrev null : Value := .primitive .null

/-- A truth value. -/
@[match_pattern] abbrev bool (value : Bool) : Value := .primitive (.bool value)

/-- A number. -/
@[match_pattern] abbrev number (value : Number) : Value := .primitive (.number value)

/-- A string. -/
@[match_pattern] abbrev string (value : String) : Value := .primitive (.string value)

/-- Whether a value is a function. -/
def isFunction : Value → Bool
  | .function => true
  | _ => false

instance : Inhabited Value := ⟨.undefined⟩

end Value

namespace Dict

/-- The value under a key. -/
def get? (d : Dict) (key : String) : Option Value := Assoc.get? key d

/-- The keys in order. -/
def keys (d : Dict) : List String := Assoc.keys d

/-- Whether a dictionary has a function under a key. -/
def hasFunction (d : Dict) (key : String) : Bool := (d.get? key).any Value.isFunction

/-- Whether a dictionary stands for a result that is still to come: it has functions to call with
the result and with a failure. Such a dictionary is no mere collection of entries. -/
def isPromise (d : Dict) : Bool := d.hasFunction "then" && d.hasFunction "catch"

end Dict

/-- What a value is. -/
def Value.typeName : Value → TypeName
  | .primitive p => p.typeName
  | .function => .function
  | .list _ => .array
  | .dict d => if Dict.isPromise d then .promise else .object

end Wamp
