import Wamp.Schema.Issue
import Wamp.Uri.Basic

/-!
# Faults

A fault is the reason for which an operation has no result.
-/

namespace Wamp

/-- Why an operation has no result. -/
inductive Fault where
  /-- The string is no URI under the policy. -/
  | invalidUri (value : String) (policy : Uri.Policy)
  /-- Nothing is registered for the key. -/
  | noEntry (key : String)
  /-- The registry is sealed and takes no registration of the key. -/
  | sealed (key : String)
  /-- What was to be registered as a factory cannot be called. -/
  | notCallable
  /-- The value does not fit its schema. -/
  | malformed (issues : List Issue)
  /-- Foreign code failed with an error of this name and message. -/
  | raised (name message : String)
  deriving DecidableEq

namespace Fault

/-- The name of a fault. -/
def name : Fault → String
  | .invalidUri .. => "InvalidUriError"
  | .noEntry _ => "LookupError"
  | .sealed _ => "RegistrySealedError"
  | .notCallable => "TypeError"
  | .malformed _ => "ZodError"
  | .raised name _ => name

/-- The wording of a fault; issues speak for themselves. -/
def message : Fault → String
  | .invalidUri value policy =>
    "invalid URI '" ++ value ++ "' (" ++ policy.strictness ++ ", " ++ policy.matchWord ++ ")"
  | .noEntry key => "no entry registered for " ++ key
  | .sealed key => "error registry is sealed, cannot register " ++ key
  | .notCallable => "error factory must be callable"
  | .malformed _ => ""
  | .raised _ message => message

end Fault

/-- The string, if it is a URI under the policy. -/
def Uri.validate (policy : Policy) (s : String) : Except Fault String :=
  if isUri policy s then .ok s else .error (.invalidUri s policy)

end Wamp
