import Wamp.Schema.Basic

/-!
# Cancel modes

How a caller may ask for an invocation in flight to be canceled.
-/

namespace Wamp

/-- A cancel mode. -/
inductive CancelMode where
  | skip | kill | killnowait
  deriving DecidableEq

namespace CancelMode

/-- The cancel modes. -/
def all : List CancelMode := [skip, kill, killnowait]

/-- The word for a cancel mode. -/
def word : CancelMode → String
  | skip => "skip"
  | kill => "kill"
  | killnowait => "killnowait"

/-- The cancel mode of a word. -/
def ofWord? (s : String) : Option CancelMode := all.find? (·.word = s)

end CancelMode

/-- The word of a cancel mode. -/
def Schema.cancelMode : Value → Checked String := word (CancelMode.all.map CancelMode.word)

end Wamp
