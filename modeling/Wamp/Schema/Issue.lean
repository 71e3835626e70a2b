import Wamp.Number.Text
import Wamp.Value.Basic

/-!
# Issues

An issue says what is wrong with a value and where in it. Its code and its wording follow from the
cause.
-/

namespace Wamp

/-- One step from a value to one of its parts. -/
inductive PathStep where
  | key (name : String)
  | index (position : Nat)
  deriving DecidableEq

/-- What is wrong with a value. -/
inductive Defect where
  /-- A value of another type was expected. -/
  | wrongType (expected received : TypeName)
  /-- A word of a list was expected, and the value is no string. -/
  | noWord (words : List String) (received : TypeName)
  /-- A word of a list was expected, and the value is another string. -/
  | unknownWord (words : List String) (received : String)
  /-- The number is no integer. -/
  | notInteger
  /-- The number is below the least one allowed. -/
  | belowLeast (least : Int)
  /-- The number is above the greatest one allowed. -/
  | aboveGreatest (greatest : Int)
  /-- The list has fewer elements than it must have. -/
  | tooFewElements (least : Nat)
  /-- The list has more elements than it may have. -/
  | tooManyElements (greatest : Nat)
  /-- The string has fewer characters than it must have. -/
  | tooShort (least : Nat)
  /-- The value is not the one that belongs here. -/
  | wrongLiteral (expected : Nat)
  /-- The value has none of the shapes allowed. -/
  | noAlternative
  /-- The value is no valid URI. -/
  | invalidUri
  /-- The value is no code of a message kind. -/
  | unknownMessageType
  /-- The dictionary has keys that it may not have. -/
  | unknownKeys (keys : List String)
  deriving DecidableEq

namespace Defect

/-- The class of a defect. -/
def code : Defect → String
  | .wrongType .. | .noWord .. | .notInteger => "invalid_type"
  | .unknownWord .. => "invalid_enum_value"
  | .belowLeast _ | .tooFewElements _ | .tooShort _ => "too_small"
  | .aboveGreatest _ | .tooManyElements _ => "too_big"
  | .wrongLiteral _ => "invalid_literal"
  | .noAlternative => "invalid_union"
  | .invalidUri | .unknownMessageType => "custom"
  | .unknownKeys _ => "unrecognized_keys"

/-- A word between apostrophes. -/
def apostrophized (word : String) : String := "'" ++ word ++ "'"

/-- The words to choose from. -/
def choices (words : List String) : String := " | ".intercalate (words.map apostrophized)

/-- What was expected and what was received; a value that is not there is only required. -/
def typeMessage (expected : String) : TypeName → String
  | .undefined => "Required"
  | received => "Expected " ++ expected ++ ", received " ++ received.word

/-- A bound in decimal. -/
def bound (value : Int) : String := String.ofList (Number.intText value)

/-- The wording of a defect. -/
def message : Defect → String
  | .wrongType expected received => typeMessage expected.word received
  | .noWord words received => typeMessage (choices words) received
  | .unknownWord words received =>
    "Invalid enum value. Expected " ++ choices words ++ ", received " ++ apostrophized received
  | .notInteger => "Expected integer, received float"
  | .belowLeast least => "Number must be greater than or equal to " ++ bound least
  | .aboveGreatest greatest => "Number must be less than or equal to " ++ bound greatest
  | .tooFewElements least => "Array must contain at least " ++ bound least ++ " element(s)"
  | .tooManyElements greatest =>
    "Array must contain at most " ++ bound greatest ++ " element(s)"
  | .tooShort least => "String must contain at least " ++ bound least ++ " character(s)"
  | .wrongLiteral expected => "Invalid literal value, expected " ++ bound expected
  | .noAlternative => "Invalid input"
  | .invalidUri => "Invalid URI"
  | .unknownMessageType => "Unknown message type"
  | .unknownKeys keys =>
    "Unrecognized key(s) in object: " ++ ", ".intercalate (keys.map apostrophized)

end Defect

/-- A defect of the part of a value that a path leads to. -/
structure Issue where
  path : List PathStep
  defect : Defect
  deriving DecidableEq

/-- The issue seen from the value that the part belongs to. -/
def Issue.below (step : PathStep) (issue : Issue) : Issue :=
  { issue with path := step :: issue.path }

end Wamp
