import Wamp.Proofs.Message.Grammar
import Wamp.Proofs.Message.RoundTrip

/-!
# Canonical wire forms

Several lists stand for one message, and writing the message picks one of them. That one can be told
from any of the others without reading it: `Value.canonical` takes the reserved key out of every
dictionary and then, where a payload may follow, an empty dictionary and after it an empty list from
the end. Writing what was read is bringing into canonical form, so doing it twice is doing it once,
and what two lists are read as is the same exactly when their canonical forms are
(`Message.reencode_eq_canonical`).
-/

namespace Wamp

/-! ## The canonical form -/

/-- A payload without empty keyword arguments at its end. -/
def trimKwargs : List Value → List Value
  | [args, .dict []] => [args]
  | payload => payload

/-- A payload without empty positional arguments at its end. -/
def trimArgs : List Value → List Value
  | [.list []] => []
  | payload => payload

/-- A list in which the payload starts behind the given number of elements, without the empty
arguments at its end. -/
def trimPayload (fixed : Nat) (items : List Value) : List Value :=
  items.take fixed ++ trimArgs (trimKwargs (items.drop fixed))

/-- The list with the payload of an error or an event trimmed. -/
def trimMessage : List Value → List Value
  | .number n :: rest =>
    if n = .int MessageKind.error.code then trimPayload 5 (.number n :: rest)
    else if n = .int MessageKind.event.code then trimPayload 4 (.number n :: rest)
    else .number n :: rest
  | items => items

/-- The canonical form of a value that is read as a message. -/
def Value.canonical (v : Value) : Value :=
  match v.stripped with
  | .list items => .list (trimMessage items)
  | w => w

/-- Reads a message and writes it again. -/
def Message.reencode (v : Value) : Except Fault Value :=
  (Message.parse v).map fun m => .list m.wire

namespace Message

/-! ## What was read is valid -/

/-- What is left of a list that may travel travels as it is. -/
theorem portable_strippedItems {items : List Value} (h : (Value.list items).IsWire) :
    (Value.list (Value.strippedItems items)).Portable := by
  have hportable := h.portable_stripped
  rwa [Value.stripped] at hportable

/-- What is left of a dictionary that may travel travels as it is. -/
theorem portable_strippedEntries {entries : Dict} (h : (Value.dict entries).IsWire) :
    (Value.dict (Value.strippedEntries entries)).Portable := by
  have hportable := h.portable_stripped
  rwa [Value.stripped] at hportable

/-- The positional arguments of a payload travel as they are. -/
theorem PayloadForm.portable_args {payload : List Value} {args : Field (List Value)}
    {kwargs : Field Dict} (h : PayloadForm payload args kwargs) :
    ∀ items, args = .given items → (Value.list items).Portable := by
  cases h with
  | none => exact nofun
  | args hitems | kwargs hitems =>
    rintro items ⟨⟩
    exact portable_strippedItems hitems

/-- The keyword arguments of a payload travel as they are. -/
theorem PayloadForm.portable_kwargs {payload : List Value} {args : Field (List Value)}
    {kwargs : Field Dict} (h : PayloadForm payload args kwargs) :
    ∀ entries, kwargs = .given entries → (Value.dict entries).Portable := by
  cases h with
  | none | args => exact nofun
  | kwargs hitems hentries =>
    rintro entries ⟨⟩
    exact portable_strippedEntries hentries

/-- Every message of the grammar is valid. -/
theorem Grammar.valid {items : List Value} {m : Message} (h : Grammar items m) : m.Valid := by
  cases h with
  | abort hdetails hreason => exact ⟨portable_strippedEntries hdetails, hreason⟩
  | error hid hdetails herror hpayload =>
    exact ⟨hid, portable_strippedEntries hdetails, herror,
      Field.getD_toOption hpayload.portable_args Value.portable_nil,
      Field.getD_toOption hpayload.portable_kwargs Value.portable_empty⟩
  | event hs hp hdetails hpayload =>
    exact ⟨hs, hp, portable_strippedEntries hdetails, hpayload.portable_args,
      hpayload.portable_kwargs⟩
  | interrupt hid hoptions => exact ⟨hid, portable_strippedEntries hoptions⟩

/-! ## What was written is canonical -/

/-- A payload is written as it was read, but stripped and trimmed. -/
theorem PayloadForm.payload_eq {items : List Value} {args : Field (List Value)}
    {kwargs : Field Dict} (h : PayloadForm items args kwargs) :
    payload args.toOption kwargs.toOption = trimArgs (trimKwargs (Value.strippedItems items)) := by
  cases h with
  | none => rfl
  | @args items hitems =>
    rw [Value.strippedItems, Value.strippedItems, Value.stripped]
    cases Value.strippedItems items <;> rfl
  | @kwargs items entries hitems hentries =>
    rw [Value.strippedItems, Value.strippedItems, Value.strippedItems, Value.stripped,
      Value.stripped]
    -- Keyword arguments that are left keep the positional ones; when none are, those are trimmed.
    cases Value.strippedEntries entries with
    | nil => cases Value.strippedItems items <;> rfl
    | cons e rest => cases Value.strippedItems items <;> rfl

/-- Missing arguments are written like empty ones. -/
theorem payload_getD (args : Option (List Value)) (kwargs : Option Dict) :
    payload (some (args.getD [])) (some (kwargs.getD [])) = payload args kwargs := rfl

/-- A message of the grammar is written in the canonical form of the list. -/
theorem Grammar.wire_eq {items : List Value} {m : Message} (h : Grammar items m) :
    .list m.wire = (Value.list items).canonical := by
  cases h with
  | abort hdetails hreason => rfl
  | error hid hdetails herror hpayload =>
    rw [wire, ErrorMessage.wire, payload_getD, hpayload.payload_eq]
    rfl
  | event hs hp hdetails hpayload =>
    rw [wire, EventMessage.wire, hpayload.payload_eq]
    rfl
  | interrupt hid hoptions => rfl

/-! ## Reading what was written -/

/-- The wire form of a valid message belongs to the grammar, as the message that it shows. -/
theorem Valid.grammar {m : Message} (h : m.Valid) : Grammar m.wire m.normalized := by
  cases m with
  | abort m => exact (m.reads_wire h).grammar
  | error m =>
    obtain ⟨s, hreads⟩ := m.reads_wire h
    exact hreads.grammar
  | event m =>
    obtain ⟨s, hreads⟩ := m.reads_wire h
    exact hreads.grammar
  | interrupt m => exact (m.reads_wire h).grammar

/-- An event and what its wire form shows of it are written alike. -/
theorem wire_normalized_event (m : EventMessage) : m.normalized.wire = m.wire := by
  rw [EventMessage.wire, EventMessage.wire, EventMessage.normalized, payload, payload]
  generalize m.args.toOption.getD [] = items
  generalize m.kwargs.toOption.getD [] = entries
  by_cases hk : entries = []
  · by_cases ha : items = []
    · simp [hk, ha, Field.toOption]
    · simp [hk, ha, Field.toOption]
  · simp [hk, Field.toOption]

/-- A message and what its wire form shows of it are written alike. -/
theorem wire_normalized (m : Message) : m.normalized.wire = m.wire := by
  cases m with
  | abort m | error m | interrupt m => rfl
  | event m => exact wire_normalized_event m

/-- Only an event can differ from what its wire form shows of it. -/
theorem normalized_eq_self {m : Message} (h : m.kind ≠ .event) : m.normalized = m := by
  cases m with
  | abort m | error m | interrupt m => rfl
  | event m => exact absurd rfl h

/-- What the wire form of a message shows has its kind. -/
theorem kind_normalized (m : Message) : m.normalized.kind = m.kind := by
  cases m <;> rfl

/-- What a value is read as is written in the canonical form of the value, and that is read as the
message that it shows. -/
theorem canonical_of_parse {v : Value} {m : Message} (h : Message.parse v = .ok m) :
    .list m.wire = v.canonical ∧ Message.parse v.canonical = .ok m.normalized := by
  obtain ⟨items, rfl, hgrammar⟩ := message_eq_ok_iff_grammar.1 (parse_eq_ok_iff.1 h)
  have hcanonical := hgrammar.wire_eq
  refine ⟨hcanonical, ?_⟩
  rw [← hcanonical, parse_eq_ok_iff, message_eq_ok_iff_grammar]
  exact ⟨m.wire, rfl, hgrammar.valid.grammar⟩

/-- Writing a message that was read brings the value that it was read from into canonical form. The
canonical form is accepted again and written as it is. Two values are read as the same message,
which is no event, exactly when they have the same canonical form. -/
theorem reencode_eq_canonical {v : Value} {m : Message} (h : Message.parse v = .ok m) :
    Message.reencode v = .ok v.canonical ∧
      Message.reencode v.canonical = .ok v.canonical ∧
      ∀ v' m', Message.parse v' = .ok m' → m.kind ≠ .event →
        (m = m' ↔ v.canonical = v'.canonical) := by
  obtain ⟨hwire, hparse⟩ := canonical_of_parse h
  refine ⟨?_, ?_, fun v' m' h' hkind => ⟨?_, fun hcanonical => ?_⟩⟩
  · rw [reencode, h, ← hwire]
    rfl
  · rw [reencode, hparse, ← hwire, ← wire_normalized m]
    rfl
  · rintro rfl
    exact hwire.symm.trans (canonical_of_parse h').1
  -- The common canonical form is read as what both messages show, and neither is an event.
  · have hshown : m.normalized = m'.normalized := by
      have hparse' := (canonical_of_parse h').2
      rw [← hcanonical, hparse] at hparse'
      exact Except.ok.inj hparse'
    have hkind' : m'.kind ≠ .event := by
      rwa [← kind_normalized m', ← hshown, kind_normalized m]
    calc m = m.normalized := (normalized_eq_self hkind).symm
      _ = m'.normalized := hshown
      _ = m' := normalized_eq_self hkind'

/-- An error whose keyword arguments hold nothing but the reserved key is written without any
payload, and is the message that a list without a payload is read as. -/
theorem reencode_eq_canonical_reserved :
    Message.reencode (.list [.number (.int 8), .number (.int 68), .number (.int 5), .dict [],
          .string "com.example.bad", .list [], .dict [("__proto__", .dict [("k", .null)])]]) =
        .ok (.list [.number (.int 8), .number (.int 68), .number (.int 5), .dict [],
          .string "com.example.bad"]) ∧
      Message.reencode (.list [.number (.int 8), .number (.int 68), .number (.int 5), .dict [],
          .string "com.example.bad"]) =
        .ok (.list [.number (.int 8), .number (.int 68), .number (.int 5), .dict [],
          .string "com.example.bad"]) ∧
      ∀ m, Message.parse (.list [.number (.int 8), .number (.int 68), .number (.int 5),
          .dict [("__proto__", .bool true)], .string "com.example.bad"]) = .ok m →
        .error ⟨.invocation, .int 5, [], "com.example.bad", [], []⟩ = m := by
  have hread : Message.parse (.list [.number (.int 8), .number (.int 68), .number (.int 5),
      .dict [], .string "com.example.bad", .list [], .dict [("__proto__", .dict [("k", .null)])]]) =
        .ok (.error ⟨.invocation, .int 5, [], "com.example.bad", [], []⟩) := rfl
  obtain ⟨hwritten, hagain, hsame⟩ := reencode_eq_canonical hread
  exact ⟨hwritten, hagain, fun m hm => (hsame _ m hm nofun).2 rfl⟩

example : (Value.list [.number (.int 36), .number (.int 1), .number (.int 2), .dict [], .list [],
      .dict [("k", .list []), ("__proto__", .null)]]).canonical =
    .list [.number (.int 36), .number (.int 1), .number (.int 2), .dict [], .list [],
      .dict [("k", .list [])]] := rfl

end Message

end Wamp
