import Wamp.Failure.Basic

/-!
# Invocation errors

An invocation error is a failure to be reported to the caller of a procedure: a URI with optional
positional arguments, keyword arguments and details. What is empty counts as not given. The message
is made from the URI and the positional arguments whenever these are set.
-/

namespace Wamp

/-- A failure to be reported to a remote caller. -/
structure InvocationError where
  /-- The class that the error is made as, if it is a derived one. -/
  derived : Option Derivation
  uri : String
  args : Option (List Value)
  kwargs : Option Dict
  details : Option Dict
  message : String
  /-- What the error was caused by. -/
  cause : Option Value

namespace InvocationError

/-- What an invocation error may be given besides its URI. -/
structure Init where
  args : Option (List Value) := none
  kwargs : Option Dict := none
  details : Option Dict := none
  cause : Option Value := none

/-- A container, unless it is empty. -/
def nonEmpty {α : Type _} (items : Option (List α)) : Option (List α) :=
  items.filter fun items => !items.isEmpty

/-- The message of an invocation error: its URI, then its positional arguments if it has any. -/
def render (uri : String) : Option (List Value) → String
  | none => uri
  | some args => uri ++ " " ++ commaSeparated (args.map Value.plain)

/-- An invocation error of a class, if the URI is one. -/
def ofClass (derived : Option Derivation) (uri : String) (init : Init) :
    Except Fault InvocationError :=
  (Uri.validate .default uri).map fun uri =>
    { derived
      uri
      args := nonEmpty init.args
      kwargs := nonEmpty init.kwargs
      details := nonEmpty init.details
      message := render uri (nonEmpty init.args)
      cause := init.cause }

/-- An invocation error, if the URI is one. -/
def make (uri : String) (init : Init) : Except Fault InvocationError := ofClass none uri init

/-- An invocation error with positional arguments only. -/
def ofArgs (uri : String) (args : List Value) : Except Fault InvocationError :=
  make uri { args := some args }

/-- The error with the URI, arguments and details of another and with its own class and cause. -/
def overwriteWith (e other : InvocationError) : InvocationError :=
  { e with
    uri := other.uri
    args := other.args
    kwargs := other.kwargs
    details := other.details
    message := render other.uri other.args }

/-- The class of an invocation error. -/
def failureClass (e : InvocationError) : FailureClass := ⟨.invocation, e.derived⟩

/-- The name of an invocation error. -/
def name (e : InvocationError) : String := e.failureClass.failureName

/-- The text of an invocation error. -/
def text (e : InvocationError) : String := e.failureClass.text e.message

/-- The text of a part that may be missing. -/
def part {α : Type _} (text : α → String) (value : Option α) : List String :=
  (value.map text).toList

/-- The text of an invocation error with all its parts. -/
def describe (e : InvocationError) : String :=
  e.name ++ "(" ++ commaSeparated
    ([(Value.string e.uri).quoted]
      ++ part (fun args => commaSeparated (args.map Value.quoted)) e.args
      ++ part (fun kwargs => "kwargs=" ++ (Value.dict kwargs).quoted) e.kwargs
      ++ part (fun details => "details=" ++ (Value.dict details).quoted) e.details) ++ ")"

/-- The entry of a part that may be missing. -/
def entry {α : Type _} (key : String) (toValue : α → Value) (value : Option α) : Dict :=
  (value.map fun a => (key, toValue a)).toList

/-- The log record of an invocation error. -/
def record (e : InvocationError) : Dict :=
  recordHead e.failureClass e.message ++ [("uri", .string e.uri)]
    ++ entry "args" .list e.args ++ entry "kwargs" .dict e.kwargs
    ++ entry "details" .dict e.details

/-- The reply to a request that failed with an invocation error. -/
def toErrorMessage (e : InvocationError) (requestId : Number) (requestType : MessageKind) :
    ErrorMessage :=
  ⟨requestType, requestId, e.details.getD [], e.uri, e.args.getD [], e.kwargs.getD []⟩

end InvocationError

end Wamp
