import Wamp.Failure.Invocation

/-!
# Payloads of invocation errors

The form in which an invocation error is handed to a transport: a dictionary with its URI and those
of its parts that are there. A dictionary with other keys, or with parts of the wrong shape, is
refused with an issue for each defect.
-/

namespace Wamp

/-- The payload of an invocation error. -/
structure Payload where
  uri : String
  args : Field (List Value)
  kwargs : Field Dict
  details : Field Dict

namespace Payload

/-- The keys of a payload. -/
def keys : List String := ["uri", "args", "kwargs", "details"]

/-- The entries of a payload. -/
def record (p : Payload) : Dict :=
  [("uri", .string p.uri)] ++ (p.args.map .list).entry "args" ++ (p.kwargs.map .dict).entry "kwargs"
    ++ (p.details.map .dict).entry "details"

end Payload

namespace Schema

/-- Nothing, if a dictionary has the given keys only. -/
def onlyKeys (keys : List String) (d : Dict) : Checked Unit :=
  match d.keys.filter (· ∉ keys) with
  | [] => .ok ()
  | unknown => .refuse (.unknownKeys unknown)

/-- A part of a dictionary that may be left out. -/
def part {α : Type} (schema : Value → Checked α) (d : Dict) (key : String) : Checked (Field α) :=
  (optional schema (d.get? key)).below (.key key)

/-- The entries of the payload of an invocation error. -/
def payloadEntries (d : Dict) : Checked Payload :=
  let uri := (uri ((d.get? "uri").getD .undefined)).below (.key "uri")
  let parts := (part list d "args").and ((part dict d "kwargs").and (part dict d "details"))
  ((uri.and parts).and (onlyKeys Payload.keys d)).map
    fun ((uri, args, kwargs, details), _) => ⟨uri, args, kwargs, details⟩

/-- The payload of an invocation error. -/
def payload : Value → Checked Payload := object payloadEntries

end Schema

namespace InvocationError

/-- The part of a payload that holds a part of an invocation error. -/
def field {α : Type _} : Option α → Field α
  | none => .absent
  | some a => .given a

/-- The payload of an invocation error. -/
def toPayload (e : InvocationError) : Payload :=
  ⟨e.uri, field e.args, field e.kwargs, field e.details⟩

/-- The invocation error that a payload describes. -/
def ofPayload (v : Value) : Except Fault InvocationError :=
  match Schema.payload v with
  | .ok p =>
    make p.uri
      { args := p.args.toOption, kwargs := p.kwargs.toOption, details := p.details.toOption }
  | .error issues => .error (.malformed issues)

end InvocationError

end Wamp
