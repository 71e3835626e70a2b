import Wamp.Proofs.Message.Shape

/-!
# Reading back what was written

A message is valid if its parts travel as they are and its ids and URIs are what they are called.
`Message.parse_wire` says that reading the wire form of a valid message always succeeds, and what it
returns: the message itself, except that the payload of an event is normalized, since its wire form
does not tell an empty payload from an absent one. Each form of payload lands in the one shape of
its length, so the proof is one case for each of them.
-/

namespace Wamp

/-! ## Valid messages -/

/-- The details travel as they are and the reason is a URI. -/
structure AbortMessage.Valid (m : AbortMessage) : Prop where
  details : (Value.dict m.details).Portable
  reason : Uri.isUri .default m.reason = true

/-- The id is one, the details and the payload travel as they are, and the error is a URI. -/
structure ErrorMessage.Valid (m : ErrorMessage) : Prop where
  requestId : m.requestId.IsId
  details : (Value.dict m.details).Portable
  error : Uri.isUri .default m.error = true
  args : (Value.list m.args).Portable
  kwargs : (Value.dict m.kwargs).Portable

/-- The ids are ids, and the details and what there is of a payload travel as they are. -/
structure EventMessage.Valid (m : EventMessage) : Prop where
  subscriptionId : m.subscriptionId.IsId
  publicationId : m.publicationId.IsId
  details : (Value.dict m.details).Portable
  args : ∀ args, m.args = .given args → (Value.list args).Portable
  kwargs : ∀ kwargs, m.kwargs = .given kwargs → (Value.dict kwargs).Portable

/-- The id is one and the options travel as they are. -/
structure InterruptMessage.Valid (m : InterruptMessage) : Prop where
  requestId : m.requestId.IsId
  options : (Value.dict m.options).Portable

/-- A message whose parts are what their names say and travel as they are. -/
def Message.Valid : Message → Prop
  | .abort m => m.Valid
  | .error m => m.Valid
  | .event m => m.Valid
  | .interrupt m => m.Valid

/-! ## What is read back -/

/-- The event with its payload as the wire form shows it: keyword arguments, if there are any, stay
and have positional ones before them; positional ones stay if there are any; nothing else is
left. -/
def EventMessage.normalized (m : EventMessage) : EventMessage :=
  let items := m.args.toOption.getD []
  let entries := m.kwargs.toOption.getD []
  if entries ≠ [] then { m with args := .given items, kwargs := .given entries }
  else if items ≠ [] then { m with args := .given items, kwargs := .absent }
  else { m with args := .absent, kwargs := .absent }

/-- The message as its wire form shows it. -/
def Message.normalized : Message → Message
  | .event m => .event m.normalized
  | m => m

/-- An empty list travels as it is. -/
theorem Value.portable_nil : (Value.list []).Portable := ⟨.list nofun, .list nofun⟩

/-- A dictionary without entries travels as it is. -/
theorem Value.portable_empty : (Value.dict []).Portable := ⟨.dict nofun, .dict nofun nofun⟩

/-- The head of a valid error is read unchanged. -/
theorem ErrorMessage.Valid.head {m : ErrorMessage} (h : m.Valid) :
    Shape.ErrorHead m.requestType.toValue (.number m.requestId) (.dict m.details) (.string m.error)
      m.requestType m.requestId m.details m.error where
  type := Schema.messageKind_eq_ok_iff.2 rfl
  id := Schema.id_eq_ok_iff.2 ⟨rfl, h.requestId⟩
  details := Schema.dict_of_portable h.details
  error := Schema.uri_eq_ok_iff.2 ⟨rfl, h.error⟩

/-- The head of a valid event is read unchanged. -/
theorem EventMessage.Valid.head {m : EventMessage} (h : m.Valid) :
    Shape.EventHead (.number m.subscriptionId) (.number m.publicationId) (.dict m.details)
      m.subscriptionId m.publicationId m.details where
  subscription := Schema.id_eq_ok_iff.2 ⟨rfl, h.subscriptionId⟩
  publication := Schema.id_eq_ok_iff.2 ⟨rfl, h.publicationId⟩
  details := Schema.dict_of_portable h.details

/-- What holds of the value of a field, if it has one, and of the value in its place holds of what
is read of the field. -/
theorem Field.getD_toOption {α : Type _} {P : α → Prop} {field : Field α} {default : α}
    (hgiven : ∀ a, field = .given a → P a) (hdefault : P default) :
    P (field.toOption.getD default) := by
  cases field with
  | absent | undefined => exact hdefault
  | given a => exact hgiven a rfl

/-- The positional arguments of a valid event travel as they are, also where it has none. -/
theorem EventMessage.Valid.items {m : EventMessage} (h : m.Valid) :
    (Value.list (m.args.toOption.getD [])).Portable :=
  Field.getD_toOption h.args Value.portable_nil

/-- The keyword arguments of a valid event travel as they are, also where it has none. -/
theorem EventMessage.Valid.entries {m : EventMessage} (h : m.Valid) :
    (Value.dict (m.kwargs.toOption.getD [])).Portable :=
  Field.getD_toOption h.kwargs Value.portable_empty

/-- The wire form of a valid abort is read as the abort. -/
theorem AbortMessage.reads_wire {m : AbortMessage} (h : m.Valid) :
    Shape.abort.Reads m.wire (.abort m) :=
  .abort (Schema.dict_of_portable h.details) (Schema.uri_eq_ok_iff.2 ⟨rfl, h.reason⟩)

/-- The wire form of a valid interrupt is read as the interrupt. -/
theorem InterruptMessage.reads_wire {m : InterruptMessage} (h : m.Valid) :
    Shape.interrupt.Reads m.wire (.interrupt m) :=
  .interrupt (Schema.id_eq_ok_iff.2 ⟨rfl, h.requestId⟩) (Schema.dict_of_portable h.options)

/-- The wire form of a valid error is read as the error by the shape for its payload. -/
theorem ErrorMessage.reads_wire {m : ErrorMessage} (h : m.Valid) :
    ∃ s : Shape, s.Reads m.wire (.error m) := by
  obtain ⟨type, id, details, error, args, kwargs⟩ := m
  have hargs : Schema.list (.list args) = .ok args := Schema.list_of_portable h.args
  have hkwargs : Schema.dict (.dict kwargs) = .ok kwargs := Schema.dict_of_portable h.kwargs
  rw [wire]
  -- What the payload ends with decides the length, and the length decides the shape.
  by_cases hk : kwargs = []
  · subst hk
    by_cases ha : args = []
    · subst ha
      exact ⟨.error, .error h.head⟩
    · have hpayload : payload (some args) (some []) = [.list args] := by simp [payload, ha]
      rw [hpayload]
      exact ⟨.errorArgs, .errorArgs h.head hargs⟩
  · have hpayload : payload (some args) (some kwargs) = [.list args, .dict kwargs] := by
      simp [payload, hk]
    rw [hpayload]
    exact ⟨.errorKwargs, .errorKwargs h.head hargs hkwargs⟩

/-- The wire form of a valid error is accepted as the error. -/
theorem ErrorMessage.message_wire {m : ErrorMessage} (h : m.Valid) :
    Schema.message (.list m.wire) = .ok (.error m) :=
  Schema.message_eq_ok_iff.2 ⟨_, rfl, m.reads_wire h⟩

/-- The wire form of an error is accepted only if its positional arguments may travel. -/
theorem ErrorMessage.isWire_args_of_message {m : ErrorMessage} {n : Message}
    (h : Schema.message (.list m.wire) = .ok n) : (Value.list m.args).IsWire := by
  have hwire := Value.isWire_list_iff.1 (Schema.isWire_of_message h)
  -- Positional arguments that are not empty stand in the wire form, also before keyword ones.
  by_cases ha : m.args = []
  · rw [ha]
    exact .list nofun
  · refine hwire _ (List.mem_append_right _ ?_)
    by_cases hk : m.kwargs = []
    · simp [payload, ha, hk]
    · simp [payload, hk]

/-- The wire form of a valid event is read as the normalized event by the shape for its payload. -/
theorem EventMessage.reads_wire {m : EventMessage} (h : m.Valid) :
    ∃ s : Shape, s.Reads m.wire (.event m.normalized) := by
  have hitems := Schema.list_of_portable h.items
  have hentries := Schema.dict_of_portable h.entries
  rw [wire, payload, normalized]
  -- The wire form and the normalized event look at the payload in the same way.
  generalize m.args.toOption.getD [] = items at *
  generalize m.kwargs.toOption.getD [] = entries at *
  by_cases hk : entries = []
  · by_cases ha : items = []
    · simp only [hk, ha, ne_eq, not_true_eq_false, if_false]
      exact ⟨.event, .event h.head⟩
    · simp only [hk, ha, ne_eq, not_true_eq_false, not_false_eq_true, if_false, if_true]
      exact ⟨.eventArgs, .eventArgs h.head hitems⟩
  · simp only [hk, ne_eq, not_false_eq_true, if_true]
    exact ⟨.eventKwargs, .eventKwargs h.head hitems hentries⟩

/-- Reading the wire form of a valid message succeeds and returns the message as its wire form shows
it: an abort, an error or an interrupt itself, and an event with its payload normalized. -/
theorem Message.parse_wire {m : Message} (h : m.Valid) :
    Message.parse (.list m.wire) = .ok m.normalized := by
  rw [Message.parse_eq_ok_iff, Schema.message_eq_ok_iff]
  cases m with
  | abort m => exact ⟨_, rfl, .abort, m.reads_wire h⟩
  | error m => exact ⟨_, rfl, m.reads_wire h⟩
  | event m => exact ⟨_, rfl, m.reads_wire h⟩
  | interrupt m => exact ⟨_, rfl, .interrupt, m.reads_wire h⟩

/-- An event whose positional arguments are undefined and whose keyword arguments are nested is read
back with an empty list in front of the keyword arguments. -/
theorem Message.parse_wire_nested :
    Message.Valid (.event ⟨.int 7, .negZero, [("k", .list [.number (.infinity true), .null])],
        .undefined, .given [("0", .dict [("x", .string "y")])]⟩) ∧
      Message.parse (.list (Message.event ⟨.int 7, .negZero,
          [("k", .list [.number (.infinity true), .null])], .undefined,
          .given [("0", .dict [("x", .string "y")])]⟩).wire) =
        .ok (.event ⟨.int 7, .negZero, [("k", .list [.number (.infinity true), .null])],
          .given [], .given [("0", .dict [("x", .string "y")])]⟩) := by
  have hvalid : Message.Valid (.event ⟨.int 7, .negZero,
      [("k", .list [.number (.infinity true), .null])], .undefined,
      .given [("0", .dict [("x", .string "y")])]⟩) := by
    refine ⟨⟨7, rfl, by decide, by decide⟩, ⟨0, rfl, by decide, by decide⟩, ?_, nofun, ?_⟩
    · simp [Value.Portable, Primitive.isWire, reservedKey]
    · rintro kwargs ⟨⟩
      simp [Value.Portable, Primitive.isWire, reservedKey]
  exact ⟨hvalid, Message.parse_wire hvalid⟩

end Wamp
