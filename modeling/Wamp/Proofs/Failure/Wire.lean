import Wamp.Proofs.Failure.Reachable
import Wamp.Proofs.Message.RoundTrip

/-!
# Invocation errors on the wire

An invocation error leaves a peer in two forms: as a payload, which has a key for each part that is
there, and as an error message, in which a part that is missing is empty and is cut off at the end.
Both show the same: `Payload.wire` writes the list of the message from the payload alone. And both
show all of it, for the message that is read from the list has what the error is made of
(`Store.Reachable.make_of_parse_wire`).
-/

namespace Wamp

/-- The wire form of the error message that reports what a payload holds. The arguments follow the
five elements that are always there, and positional ones that are missing are written only in front
of keyword ones. -/
def Payload.wire (p : Payload) (requestId : Number) (type : MessageKind) : List Value :=
  [MessageKind.error.toValue, type.toValue, .number requestId, .dict (p.details.toOption.getD []),
    .string p.uri] ++
  match p.args.toOption, p.kwargs.toOption with
  | args, some kwargs => [.list (args.getD []), .dict kwargs]
  | some args, none => [.list args]
  | none, none => []

namespace InvocationError

/-- The parts of an invocation error travel as they are. -/
structure Portable (e : InvocationError) : Prop where
  args : ∀ args, e.args = some args → (Value.list args).Portable
  kwargs : ∀ kwargs, e.kwargs = some kwargs → (Value.dict kwargs).Portable
  details : ∀ details, e.details = some details → (Value.dict details).Portable

/-- A part of a payload is the part of the invocation error. -/
@[simp]
theorem toOption_field {α : Type _} (part : Option α) : (field part).toOption = part := by
  cases part <;> rfl

/-- A part that is missing is kept as missing when it is written as empty. -/
theorem nonEmpty_getD {α : Type _} {part : Option (List α)} (h : part ≠ some []) :
    nonEmpty (some (part.getD [])) = part := by
  cases part with
  | none => rfl
  | some items => exact nonEmpty_eq_self h

/-- A normal invocation error is what is made of its parts, but for its class and its cause. -/
theorem Normal.make_eq {e : InvocationError} (h : e.Normal) {init : Init}
    (hargs : nonEmpty init.args = e.args) (hkwargs : nonEmpty init.kwargs = e.kwargs)
    (hdetails : nonEmpty init.details = e.details) :
    make e.uri init = .ok { e with derived := none, cause := init.cause } := by
  have hvalid := Uri.validate_eq_ok_iff.mpr ⟨h.uri, rfl⟩
  have hmessage : e.message = render e.uri e.args := h.rendered
  rw [make, ofClass, hvalid, hargs, hkwargs, hdetails, hmessage]
  rfl

/-- The error message and the payload of a normal invocation error are written alike. -/
theorem Normal.wire_toErrorMessage {e : InvocationError} (h : e.Normal) (requestId : Number)
    (type : MessageKind) :
    (e.toErrorMessage requestId type).wire = e.toPayload.wire requestId type := by
  rw [ErrorMessage.wire, Payload.wire, toErrorMessage, toPayload]
  simp only [toOption_field]
  congr 1
  -- Neither kind of arguments is there and empty, so being there is not being empty.
  have hargs := h.args
  have hkwargs := h.kwargs
  cases hk : e.kwargs with
  | some kwargs =>
    have hne : kwargs ≠ [] := fun heq => hkwargs (hk.trans (congrArg some heq))
    simp [payload, hne]
  | none =>
    cases ha : e.args with
    | some args =>
      have hne : args ≠ [] := fun heq => hargs (ha.trans (congrArg some heq))
      simp [payload, hne]
    | none => rfl

/-- What holds of a part that is there and of what is written in its place holds of what is
written. -/
theorem getD_of_forall {α : Type _} {P : α → Prop} {part : Option α} {default : α}
    (hgiven : ∀ a, part = some a → P a) (hdefault : P default) : P (part.getD default) := by
  cases part with
  | none => exact hdefault
  | some a => exact hgiven a rfl

/-- The error message of a normal invocation error is valid if the parts of the error travel as they
are. -/
theorem Normal.valid_toErrorMessage {e : InvocationError} (h : e.Normal) (hportable : e.Portable)
    {requestId : Number} (hid : requestId.IsId) (type : MessageKind) :
    (e.toErrorMessage requestId type).Valid where
  requestId := hid
  details := getD_of_forall (P := fun d => (Value.dict d).Portable) hportable.details
    Value.portable_empty
  error := h.uri
  args := getD_of_forall (P := fun items => (Value.list items).Portable) hportable.args
    Value.portable_nil
  kwargs := getD_of_forall (P := fun d => (Value.dict d).Portable) hportable.kwargs
    Value.portable_empty

end InvocationError

/-- The reply with an invocation error that a program can have is the list that its payload is
written as. When its parts travel as they are, the reply is read, and what is read makes an
invocation error with the same URI, arguments, details and message. -/
theorem Store.Reachable.make_of_parse_wire {s : Store} (hs : s.Reachable) {id : InvocationId}
    {e : InvocationError} (he : s.invocation? id = some e) (hportable : e.Portable)
    {requestId : Number} (hid : requestId.IsId) (type : MessageKind) :
    (e.toErrorMessage requestId type).wire = e.toPayload.wire requestId type ∧
      ∃ m, Message.parse (.list (e.toPayload.wire requestId type)) = .ok (.error m) ∧
        InvocationError.make m.error
            { args := some m.args, kwargs := some m.kwargs, details := some m.details } =
          .ok { e with derived := none, cause := none } := by
  have hnormal := hs.wellFormed.normal id e he
  have hwire := hnormal.wire_toErrorMessage requestId type
  have hvalid := hnormal.valid_toErrorMessage hportable hid type
  refine ⟨hwire, e.toErrorMessage requestId type, ?read, ?made⟩
  case read =>
    rw [← hwire, Message.parse_eq_ok_iff]
    exact ErrorMessage.message_wire hvalid
  case made =>
    exact hnormal.make_eq (InvocationError.nonEmpty_getD hnormal.args)
      (InvocationError.nonEmpty_getD hnormal.kwargs) (InvocationError.nonEmpty_getD hnormal.details)

/-- An invocation error of a derived class that was overwritten with one that has keyword arguments
only is written with an empty list in front of these, and read back without it. -/
theorem Store.Reachable.make_of_parse_wire_overwritten :
    let first : InvocationError := ⟨some ⟨9, "AppError"⟩, "com.example.first", some [.null], none,
      none, "com.example.first null", some .null⟩
    let second : InvocationError := ⟨none, "com.example.second", none,
      some [("k", .list [.bool true])], none, "com.example.second", none⟩
    let s : Store := ((Store.empty.setFields ⟨1⟩ first).setFields ⟨2⟩ second).call
      (.set (.invocation ⟨1⟩) ⟨2⟩)
    s.Reachable ∧ s.invocation? ⟨1⟩ = some (first.overwriteWith second) ∧
      ∃ m, Message.parse (.list [.number (.int 8), .number (.int 48), .number (.int 5), .dict [],
          .string "com.example.second", .list [], .dict [("k", .list [.bool true])]]) =
          .ok (.error m) ∧
        InvocationError.make m.error
            { args := some m.args, kwargs := some m.kwargs, details := some m.details } =
          .ok second := by
  intro first second s
  have hfirst : first.Constructed :=
    ⟨some ⟨9, "AppError"⟩, "com.example.first", { args := some [.null], cause := some .null }, rfl⟩
  have hsecond : second.Constructed :=
    ⟨none, "com.example.second", { kwargs := some [("k", .list [.bool true])] }, rfl⟩
  have hs : s.Reachable := by
    refine .called (.made (.made .empty ⟨1⟩ hfirst) ⟨2⟩ hsecond) ?_
    rintro failure err ⟨⟩
    exact ⟨second, rfl⟩
  have he : s.invocation? ⟨1⟩ = some (first.overwriteWith second) := rfl
  have hportable : (first.overwriteWith second).Portable := by
    refine ⟨nofun, ?_, nofun⟩
    rintro kwargs ⟨⟩
    simp [Value.Portable, Primitive.isWire, reservedKey]
  have hid : (Number.int 5).IsId := ⟨5, rfl, by decide, by decide⟩
  obtain ⟨-, m, hread, hmade⟩ := hs.make_of_parse_wire he hportable hid .call
  exact ⟨hs, he, m, hread, hmade⟩

end Wamp
