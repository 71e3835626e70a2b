import Wamp.CancelMode
import Wamp.Catalog
import Wamp.Failure.Class
import Wamp.Fault
import Wamp.Message.Basic

/-!
# Failures

A failure is an error object other than one that is to be reported to a remote caller. What it is
made of decides its predefined class and its message; its class may be derived from that one, and it
may carry a cause and positional arguments of its own.
-/

namespace Wamp

/-- The classes whose failures consist of a message. -/
inductive PlainClass where
  | error | typeError | rangeError | transport | auth | clientClosed | invalidMessage
  deriving DecidableEq

namespace PlainClass

/-- The class itself. -/
def base : PlainClass → BaseClass
  | error => .error
  | typeError => .typeError
  | rangeError => .rangeError
  | transport => .transport
  | auth => .auth
  | clientClosed => .clientClosed
  | invalidMessage => .invalidMessage

/-- The message of a failure that is made without one. -/
def defaultMessage : PlainClass → String
  | error | typeError | rangeError => ""
  | transport => "transport error"
  | auth => "authentication failed"
  | clientClosed => "client closed"
  | invalidMessage => "invalid message"

end PlainClass

/-- What a failure is made of. -/
inductive FailureContent where
  /-- A message alone. -/
  | plain (kind : PlainClass) (message : String)
  /-- Nothing is registered for the key. -/
  | lookup (key : String)
  /-- The string is no URI under the policy. -/
  | invalidUri (value : String) (policy : Uri.Policy)
  /-- The registry is sealed and takes no registration of the key. -/
  | sealed (key : String)
  /-- The router rejected the session. -/
  | abort (reason : String) (details : Dict)
  /-- A message of one kind arrived where another was required. -/
  | unexpectedMessage (received : Message) (expected : MessageKind)
  /-- A remote error whose URI has no factory. -/
  | response (message : ErrorMessage)
  /-- The caller asks for the invocation to be canceled. -/
  | interrupt (options : Dict)

/-- A failure. -/
structure Failure where
  content : FailureContent
  /-- The class that the failure is made as, if it is derived from a predefined one. -/
  derived : Option Derivation
  /-- What the failure was caused by. -/
  cause : Option Value
  /-- The positional arguments that were put on the failure. -/
  args : Option Value

namespace FailureContent

/-- The predefined class of what is made so. -/
def base : FailureContent → BaseClass
  | plain kind _ => kind.base
  | lookup _ => .lookup
  | invalidUri .. => .invalidUri
  | sealed _ => .sealed
  | abort .. => .abort
  | unexpectedMessage .. => .unexpectedMessage
  | response _ => .response
  | interrupt _ => .interrupt

/-- The message of an error from a remote peer: its URI, then its positional arguments and, in
parentheses, its keyword arguments, each only when it has a text. -/
def responseMessage (m : ErrorMessage) : String :=
  let args := commaSeparated (m.args.map Value.quoted)
  let kwargs := m.kwargs.assignments
  m.error ++ (if args = "" then "" else " " ++ args)
    ++ (if kwargs = "" then "" else " (" ++ kwargs ++ ")")

/-- The message of what is made so. -/
def message : FailureContent → String
  | plain _ message => message
  | lookup key => (Fault.noEntry key).message
  | invalidUri value policy => (Fault.invalidUri value policy).message
  | sealed key => (Fault.sealed key).message
  | abort reason details => reason ++ " (details = " ++ (Value.dict details).quoted ++ ")"
  | unexpectedMessage received expected =>
    "received message " ++ received.text ++ " but expected message of type " ++ expected.name
  | response m => responseMessage m
  | interrupt options => "Interrupt(options=" ++ (Value.dict options).quoted ++ ")"

/-- What the log record of such a failure adds to its tag, name and message. -/
def record : FailureContent → Dict
  | abort reason details => [("reason", .string reason), ("details", .dict details)]
  | unexpectedMessage received expected =>
    [("received", .dict received.record), ("expected", .string expected.name)]
  | response m =>
    [("uri", .string m.error), ("args", .list m.args), ("kwargs", .dict m.kwargs),
      ("details", .dict m.details)]
  | interrupt options => [("options", .dict options)]
  | _ => []

end FailureContent

/-- What every log record holds. -/
def recordHead (c : FailureClass) (message : String) : Dict :=
  [("_tag", .string (c.base.tag?.getD "")), ("name", .string c.failureName),
    ("message", .string message)]

namespace Failure

/-- A failure of a predefined class without cause and arguments. -/
def ofContent (content : FailureContent) : Failure := ⟨content, none, none, none⟩

/-- The class of a failure. -/
def failureClass (f : Failure) : FailureClass := ⟨f.content.base, f.derived⟩

/-- The message of a failure. It is a string: that a program puts anything else in the place of a
message is not considered. -/
def message (f : Failure) : String := f.content.message

/-- The name of a failure. -/
def name (f : Failure) : String := f.failureClass.failureName

/-- The text of a failure. -/
def text (f : Failure) : String := f.failureClass.text f.message

/-- The log record of a failure, which only those of this protocol's taxonomy have. -/
def record? (f : Failure) : Option Dict :=
  if f.failureClass.base.isWamp then
    some (recordHead f.failureClass f.message ++ f.content.record)
  else none

end Failure

namespace Interrupt

/-- The mode that the options of an interrupt ask for, known or not. -/
def requestedMode (options : Dict) : Option Value := options.get? "mode"

/-- The cancel mode that the options of an interrupt ask for. -/
def cancelMode? (options : Dict) : Option CancelMode :=
  match requestedMode options with
  | some (.string s) => CancelMode.ofWord? s
  | _ => none

end Interrupt

end Wamp
