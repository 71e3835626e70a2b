import Wamp.Uri.Basic

/-!
# Diagnostics

What a registry tells its sink while it works. A diagnostic names what it is about; its text is
fixed here, and a sink adds at most a tag.
-/

namespace Wamp

/-- Something worth noting that is no fault. -/
inductive Diagnostic where
  /-- A factory takes the place of another. -/
  | replacingFactory (uri : String) (matching : MatchPolicy)
  /-- A class is given another URI. -/
  | replacingUri (className old new : String)
  /-- A failure is reported under the general URI. -/
  | noUri (kind uri : String)
  /-- An invocation error takes over the fields of another; both are given by their texts. -/
  | overwriting (target source : String)
  /-- A failure is attached to another invocation error; both errors are given by their texts. -/
  | replacingAttached (old kind new : String)
  deriving DecidableEq

/-- The text of a diagnostic. -/
def Diagnostic.text : Diagnostic → String
  | .replacingFactory uri matching =>
    "replacing error factory for " ++ uri ++ " (" ++ matching.word ++ ")"
  | .replacingUri className old new =>
    "replacing URI " ++ old ++ " of " ++ className ++ " with " ++ new
  | .noUri kind uri => "no uri registered for exception " ++ kind ++ ". Using " ++ uri
  | .overwriting target source => "overwriting " ++ target ++ " with " ++ source
  | .replacingAttached old kind new =>
    "replacing attached " ++ old ++ " of " ++ kind ++ " with " ++ new

/-- Where diagnostics go. -/
inductive Sink where
  /-- To one of the receivers that registries are given. -/
  | receiver (index : Nat)
  /-- To the console. -/
  | console
  deriving DecidableEq

/-- The tag of every diagnostic on the console. -/
def logTag : String := "wampkit:errors"

/-- The line that a sink makes of a text. -/
def Sink.line : Sink → String → String
  | .receiver _, text => text
  | .console, text => "[" ++ logTag ++ "] " ++ text

end Wamp
