/-!
# Fields that may be left out

A field of a record is absent, present without a value, or present with one. The first two read the
same and are told apart only where a record is shown or overlaid on another.
-/

namespace Wamp

/-- A field that may be left out. -/
inductive Field (α : Type _) where
  | absent
  | undefined
  | given (value : α)
  deriving DecidableEq

namespace Field

variable {α β : Type _}

/-- The value of a field, if it has one. -/
def toOption : Field α → Option α
  | .given a => some a
  | _ => none

/-- The field with its value changed. -/
def map (f : α → β) : Field α → Field β
  | .absent => .absent
  | .undefined => .undefined
  | .given a => .given (f a)

/-- What a field leaves of a value below it: an absent field leaves it, any other takes its
place. -/
def overlay (field : Field α) (below : Option α) : Option α :=
  match field with
  | .absent => below
  | .undefined => none
  | .given a => some a

end Field

end Wamp
