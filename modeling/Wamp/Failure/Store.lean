import Wamp.Assoc
import Wamp.Diagnostic
import Wamp.Failure.Invocation

/-!
# The store of failures

Failures have an identity. Only invocation errors change, by taking over the fields of another, so
the store holds the present fields of each of them, and the invocation error, if any, that each
other failure is attached to. Whatever else can be thrown carries its content with it. Who makes
something anew chooses its identity.
-/

namespace Wamp

/-- The identity of an object that is no invocation error. -/
structure ObjectId where
  index : Nat
  deriving DecidableEq

/-- The identity of an invocation error. -/
structure InvocationId where
  index : Nat
  deriving DecidableEq

/-- What an object is. -/
inductive Body where
  /-- An error. -/
  | failure (content : Failure)
  /-- An object that is no error, with its class if it has one. -/
  | plain (objectClass : Option FailureClass)
  /-- A function. -/
  | function

/-- An object that is no invocation error. -/
structure Object where
  id : ObjectId
  body : Body

/-- Whatever the handler of an invocation may throw. -/
inductive Thrown where
  | primitive (value : Primitive)
  | object (object : Object)
  | invocation (id : InvocationId)

/-- The identity of an object of any kind. -/
inductive Identity where
  | object (id : ObjectId)
  | invocation (id : InvocationId)
  deriving DecidableEq

/-- The identity of what is thrown, which a primitive does not have. -/
def Thrown.identity? : Thrown → Option Identity
  | .primitive _ => none
  | .object o => some (.object o.id)
  | .invocation id => some (.invocation id)

/-- What a store is given to keep. -/
inductive Product where
  /-- Something that has an identity already. -/
  | existing (thrown : Thrown)
  /-- A new object. -/
  | object (body : Body)
  /-- A new invocation error. -/
  | invocation (error : InvocationError)

/-- The word for the kind of a primitive. -/
def Primitive.kindName : Primitive → String
  | .undefined => "undefined"
  | .null => "object"
  | .bool _ => "boolean"
  | .number _ => "number"
  | .string _ => "string"
  | .bigint => "bigint"
  | .symbol => "symbol"

namespace Body

/-- The exact class of an object. -/
def class? : Body → Option FailureClass
  | .failure f => some f.failureClass
  | .plain c => c
  | .function => none

/-- The word for the kind of an object. -/
def kindName : Body → String
  | .failure f => FailureClass.kindName (some f.failureClass)
  | .plain c => FailureClass.kindName c
  | .function => "function"

end Body

namespace Thrown

/-- Whether two things are the same one. -/
def same : Thrown → Thrown → Bool
  | .primitive p, .primitive q => p = q
  | .object o, .object p => o.id = p.id
  | .invocation i, .invocation j => i = j
  | _, _ => false

end Thrown

/-- The fields of invocation errors, and what is attached to what. -/
structure Store where
  /-- The present fields of every invocation error. -/
  invocations : Assoc InvocationId InvocationError
  /-- The invocation errors that objects are attached to. The table takes any object, so that an
  invocation error could be one of them. -/
  attachments : Assoc Identity InvocationId

namespace Store

/-- The store without anything in it. -/
def empty : Store := ⟨[], []⟩

/-- The present fields of an invocation error. -/
def invocation? (s : Store) (id : InvocationId) : Option InvocationError := s.invocations.get? id

/-- The present text of an invocation error. -/
def textOf (s : Store) (id : InvocationId) : String :=
  ((s.invocation? id).map (·.text)).getD ""

/-- Keeps the fields of an invocation error. -/
def setFields (s : Store) (id : InvocationId) (e : InvocationError) : Store :=
  { s with invocations := s.invocations.put id e }

/-- Keeps something, under the given index if it has no identity yet. -/
def keep (s : Store) (fresh : Nat) : Product → Store × Thrown
  | .existing thrown => (s, thrown)
  | .object body => (s, .object ⟨⟨fresh⟩, body⟩)
  | .invocation e => (s.setFields ⟨fresh⟩ e, .invocation ⟨fresh⟩)

/-- Lets an invocation error take over the fields of another. -/
def overwrite (s : Store) (target source : InvocationId) : Store :=
  match s.invocation? target, s.invocation? source with
  | some t, some e => s.setFields target (t.overwriteWith e)
  | _, _ => s

/-- The invocation error that something is attached to. -/
def attached? (s : Store) (failure : Thrown) : Option InvocationId :=
  failure.identity?.bind s.attachments.get?

/-- Attaches an object to an invocation error, in the place of any other. -/
def attach (s : Store) (key : Identity) (id : InvocationId) : Store :=
  { s with attachments := s.attachments.put key id }

/-- Removes what something is attached to, and tells whether there was anything. -/
def clearAttached (s : Store) (failure : Thrown) : Store × Bool :=
  match failure.identity? with
  | some key => ({ s with attachments := s.attachments.erase key },
      (s.attachments.get? key).isSome)
  | none => (s, false)

/-- Sets what is to be reported for a failure: an invocation error takes over the fields of the
given one, any other object is attached to it. -/
def setInvocation (s : Store) (failure : Thrown) (err : InvocationId) :
    Store × Option Diagnostic :=
  match failure with
  | .invocation target =>
    (s.overwrite target err, some (.overwriting (s.textOf target) (s.textOf err)))
  | .object o =>
    (s.attach (.object o.id) err, (s.attached? failure).map fun old =>
      .replacingAttached (s.textOf old) o.body.kindName (s.textOf err))
  | .primitive _ => (s, none)

end Store

end Wamp
