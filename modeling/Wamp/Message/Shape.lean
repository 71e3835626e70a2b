import Wamp.Fault
import Wamp.Message.Basic
import Wamp.Schema.Basic

/-!
# Reading messages

A message has one of eight wire shapes, which differ in their code or their length. A list is read
by the first shape that accepts it; when none does, that is the only issue. An abort and an
interrupt have one shape each, and read on their own they report what is wrong with every element.
-/

namespace Wamp

/-- The wire shapes of messages. -/
inductive Shape where
  | abort
  | error | errorArgs | errorKwargs
  | event | eventArgs | eventKwargs
  | interrupt
  deriving DecidableEq

namespace Schema

/-- An abort. -/
def abort (v : Value) : Checked AbortMessage :=
  (triple (literal .abort) dict uri v).map fun (_, details, reason) => ⟨details, reason⟩

/-- An interrupt. -/
def interrupt (v : Value) : Checked InterruptMessage :=
  (triple (literal .interrupt) id dict v).map fun (_, requestId, options) => ⟨requestId, options⟩

end Schema

namespace Shape

/-- The shapes in the order in which they are tried. -/
def all : List Shape :=
  [.abort, .error, .errorArgs, .errorKwargs, .event, .eventArgs, .eventKwargs, .interrupt]

/-- The shapes of errors. -/
def errors : List Shape := [.error, .errorArgs, .errorKwargs]

/-- The shapes of events. -/
def events : List Shape := [.event, .eventArgs, .eventKwargs]

/-- The part of an error that all its shapes share. -/
def errorHead? (code type id details error : Value) (args : List Value) (kwargs : Dict) :
    Option Message := do
  (Schema.literal .error code).result?
  let type ← (Schema.messageKind type).result?
  let id ← (Schema.id id).result?
  let details ← (Schema.dict details).result?
  let error ← (Schema.uri error).result?
  return .error ⟨type, id, details, error, args, kwargs⟩

/-- The part of an event that all its shapes share. -/
def eventHead? (code subscription publication details : Value) (args : Field (List Value))
    (kwargs : Field Dict) : Option Message := do
  (Schema.literal .event code).result?
  let subscription ← (Schema.id subscription).result?
  let publication ← (Schema.id publication).result?
  let details ← (Schema.dict details).result?
  return .event ⟨subscription, publication, details, args, kwargs⟩

/-- The message of a shape that a value is. -/
def read? : Shape → Value → Option Message
  | .abort, v => (Schema.abort v).result?.map .abort
  | .error, .list [c, t, i, d, e] => errorHead? c t i d e [] []
  | .errorArgs, .list [c, t, i, d, e, a] => do
    let args ← (Schema.list a).result?
    errorHead? c t i d e args []
  | .errorKwargs, .list [c, t, i, d, e, a, k] => do
    let args ← (Schema.list a).result?
    let kwargs ← (Schema.dict k).result?
    errorHead? c t i d e args kwargs
  | .event, .list [c, s, p, d] => eventHead? c s p d .absent .absent
  | .eventArgs, .list [c, s, p, d, a] => do
    let args ← (Schema.list a).result?
    eventHead? c s p d (.given args) .absent
  | .eventKwargs, .list [c, s, p, d, a, k] => do
    let args ← (Schema.list a).result?
    let kwargs ← (Schema.dict k).result?
    eventHead? c s p d (.given args) (.given kwargs)
  | .interrupt, v => (Schema.interrupt v).result?.map .interrupt
  | _, _ => none

end Shape

namespace Schema

/-- A message of one of the given shapes. -/
def oneOf (shapes : List Shape) (v : Value) : Checked Message :=
  match shapes.findSome? (·.read? v) with
  | some m => .ok m
  | none => .refuse .noAlternative

/-- A message. -/
def message : Value → Checked Message := oneOf Shape.all

end Schema

/-- Reads a message from its wire form. -/
def Message.parse (v : Value) : Except Fault Message :=
  match Schema.message v with
  | .ok m => .ok m
  | .error issues => .error (.malformed issues)

end Wamp
