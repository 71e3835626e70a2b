import Wamp.Field
import Wamp.Message.Kind
import Wamp.Value.Json

/-!
# Messages

The messages that carry failures and events, and their wire form: a list that starts with the code
of the kind. The payload at its end is cut to what it needs: keyword arguments only when there are
any, positional ones only when there are any or when keyword arguments follow them.
-/

namespace Wamp

/-- The router rejects a session. -/
structure AbortMessage where
  details : Dict
  reason : String

/-- A request failed. -/
structure ErrorMessage where
  /-- The kind of the request. -/
  requestType : MessageKind
  requestId : Number
  details : Dict
  /-- The URI of the failure. -/
  error : String
  args : List Value
  kwargs : Dict

/-- A publication reaches a subscriber. -/
structure EventMessage where
  subscriptionId : Number
  publicationId : Number
  details : Dict
  args : Field (List Value)
  kwargs : Field Dict

/-- An invocation is to be canceled. -/
structure InterruptMessage where
  requestId : Number
  options : Dict

/-- A message. -/
inductive Message where
  | abort (message : AbortMessage)
  | error (message : ErrorMessage)
  | event (message : EventMessage)
  | interrupt (message : InterruptMessage)

/-- The payload at the end of a wire form. -/
def payload (args : Option (List Value)) (kwargs : Option Dict) : List Value :=
  let items := args.getD []
  let entries := kwargs.getD []
  if entries ≠ [] then [.list items, .dict entries] else if items ≠ [] then [.list items] else []

/-- The code of a kind as a value. -/
def MessageKind.toValue (kind : MessageKind) : Value := .number (.int kind.code)

/-- The wire form of an abort. -/
def AbortMessage.wire (m : AbortMessage) : List Value :=
  [MessageKind.abort.toValue, .dict m.details, .string m.reason]

/-- The wire form of an error. -/
def ErrorMessage.wire (m : ErrorMessage) : List Value :=
  [MessageKind.error.toValue, m.requestType.toValue, .number m.requestId, .dict m.details,
    .string m.error] ++ payload (some m.args) (some m.kwargs)

/-- The wire form of an event. -/
def EventMessage.wire (m : EventMessage) : List Value :=
  [MessageKind.event.toValue, .number m.subscriptionId, .number m.publicationId, .dict m.details]
    ++ payload m.args.toOption m.kwargs.toOption

/-- The wire form of an interrupt. -/
def InterruptMessage.wire (m : InterruptMessage) : List Value :=
  [MessageKind.interrupt.toValue, .number m.requestId, .dict m.options]

namespace Message

/-- The kind of a message. -/
def kind : Message → MessageKind
  | .abort _ => .abort
  | .error _ => .error
  | .event _ => .event
  | .interrupt _ => .interrupt

/-- The wire form of a message. -/
def wire : Message → List Value
  | .abort m => m.wire
  | .error m => m.wire
  | .event m => m.wire
  | .interrupt m => m.wire

/-- The kind and the wire form of a message, for people to read. -/
def text (m : Message) : String := m.kind.name ++ " " ++ (Value.list m.wire).quoted

end Message

/-- The entry of a field in a record. -/
def Field.entry (key : String) : Field Value → Dict
  | .absent => []
  | .undefined => [(key, .undefined)]
  | .given v => [(key, v)]

/-- The fields of an error message under their names. -/
def ErrorMessage.record (m : ErrorMessage) : Dict :=
  [("kind", .string MessageKind.error.name), ("requestType", m.requestType.toValue),
    ("requestId", .number m.requestId), ("details", .dict m.details), ("error", .string m.error),
    ("args", .list m.args), ("kwargs", .dict m.kwargs)]

/-- The fields of a message under their names. -/
def Message.record : Message → Dict
  | .abort m =>
    [("kind", .string MessageKind.abort.name), ("details", .dict m.details),
      ("reason", .string m.reason)]
  | .error m => m.record
  | .event m =>
    [("kind", .string MessageKind.event.name), ("subscriptionId", .number m.subscriptionId),
      ("publicationId", .number m.publicationId), ("details", .dict m.details)]
      ++ (m.args.map .list).entry "args" ++ (m.kwargs.map .dict).entry "kwargs"
  | .interrupt m =>
    [("kind", .string MessageKind.interrupt.name), ("requestId", .number m.requestId),
      ("options", .dict m.options)]

end Wamp
