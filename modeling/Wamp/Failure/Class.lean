/-!
# Classes of failures

A failure belongs to one of the predefined classes or to a class derived from one. A derived class
behaves as the predefined class that it goes back to and differs from it in its identity and its
name only; two classes of one name are different classes.
-/

namespace Wamp

/-- A predefined class. -/
inductive BaseClass where
  | object | array | error | typeError | rangeError | lookup | invalidUri
  | transport | auth | abort | clientClosed | invalidMessage | unexpectedMessage | response
  | invocation | interrupt | sealed
  deriving DecidableEq

namespace BaseClass

/-- The name of a predefined class. -/
def name : BaseClass → String
  | object => "Object"
  | array => "Array"
  | error => "Error"
  | typeError => "TypeError"
  | rangeError => "RangeError"
  | lookup => "LookupError"
  | invalidUri => "InvalidUriError"
  | transport => "TransportError"
  | auth => "AuthError"
  | abort => "AbortError"
  | clientClosed => "ClientClosed"
  | invalidMessage => "InvalidMessage"
  | unexpectedMessage => "UnexpectedMessageError"
  | response => "ErrorResponse"
  | invocation => "InvocationError"
  | interrupt => "Interrupt"
  | sealed => "RegistrySealedError"

/-- The classes that programs refer to by name. -/
def all : List BaseClass :=
  [object, array, error, typeError, rangeError, lookup, invalidUri, transport, auth, abort,
    clientClosed, invalidMessage, unexpectedMessage, response, invocation, interrupt, sealed]

/-- Whether the failures of a class belong to the taxonomy of this protocol. -/
def isWamp : BaseClass → Bool
  | object | array | error | typeError | rangeError | lookup | invalidUri => false
  | _ => true

/-- Whether the failures of a class are malformed messages. -/
def isInvalidMessage : BaseClass → Bool
  | invalidMessage | unexpectedMessage => true
  | _ => false

/-- The tag that tells the failures of a class apart, also those of classes derived from it. -/
def tag? : BaseClass → Option String
  | object | array | error | typeError | rangeError => none
  | base => some base.name

/-- Whether the failures of a class are shown by their message alone. -/
def showsMessageOnly : BaseClass → Bool
  | abort | unexpectedMessage | response | interrupt | invocation => true
  | _ => false

end BaseClass

/-- What a derived class adds to the class that it is derived from. -/
structure Derivation where
  /-- The identity of the class. -/
  id : Nat
  name : String
  deriving DecidableEq

/-- A class of failures. -/
structure FailureClass where
  base : BaseClass
  derived : Option Derivation
  deriving DecidableEq

namespace FailureClass

/-- A predefined class. -/
def predefined (base : BaseClass) : FailureClass := ⟨base, none⟩

/-- The name of a class. -/
def name (c : FailureClass) : String := (c.derived.map (·.name)).getD c.base.name

/-- The name that the failures of a class carry: that of the class in the taxonomy of this protocol,
and that of the predefined class elsewhere. -/
def failureName (c : FailureClass) : String := if c.base.isWamp then c.name else c.base.name

/-- The text of a failure of the class: its message alone, or its name and its message unless one of
them is empty. -/
def text (c : FailureClass) (message : String) : String :=
  if c.base.showsMessageOnly then message
  else if c.failureName = "" then message
  else if message = "" then c.failureName
  else c.failureName ++ ": " ++ message

/-- The name that a diagnostic gives the kind of an object: its class name, unless it has none. -/
def kindName (c : Option FailureClass) : String :=
  match c with
  | some c => if c.name = "" then BaseClass.object.name else c.name
  | none => BaseClass.object.name

end FailureClass

end Wamp
