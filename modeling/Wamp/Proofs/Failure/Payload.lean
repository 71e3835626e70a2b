import Wamp.Proofs.Failure.Wire

/-!
# Payloads of invocation errors

A payload that is accepted may leave a part out, give it no value or give it an empty one, and may
hold reserved keys inside its parts; of all this nothing is left in the payload of the invocation
error that it describes. `Payload.canonical` is that payload, told from the dictionary alone: the
four keys in their order, each with its stripped value if there is anything in it. An invocation
error is rebuilt from its own payload, so writing what was read a second time changes nothing
(`InvocationError.payload_roundTrip`).
-/

namespace Wamp

/-- Whether there is anything in a value: not in that of a field that is not there, and not in an
empty list or dictionary. -/
def Value.hasContent : Value → Bool
  | .undefined | .list [] | .dict [] => false
  | _ => true

/-! ## The canonical form -/

namespace Payload

/-- What the canonical form of a payload has under a key. -/
def canonicalEntry (d : Dict) (key : String) : Dict :=
  ((((d.get? key).map Value.stripped).filter Value.hasContent).map (key, ·)).toList

/-- The canonical form of a payload: its keys in their order, each with its stripped value if there
is anything in it. -/
def canonical (d : Dict) : Dict := keys.flatMap (canonicalEntry d)

/-- Reads a payload and writes that of the invocation error that it describes. -/
def reencode (v : Value) : Except Fault Value :=
  (InvocationError.ofPayload v).map fun e => .dict e.toPayload.record

end Payload

/-! ## Lookups in a payload -/

/-- What is found under the key of a field. -/
def Field.value? : Field Value → Option Value
  | .absent => none
  | .undefined => some .undefined
  | .given v => some v

/-- A field is found under its own key and no other. -/
theorem Field.get?_entry (key other : String) (field : Field Value) :
    Assoc.get? other (field.entry key) = if key = other then field.value? else none := by
  cases field <;> simp [Field.entry, Field.value?, Assoc.get?]

/-- A field has an entry exactly if something is found under its key. -/
theorem Field.mem_entry {key : String} {field : Field Value} {entry : String × Value} :
    entry ∈ field.entry key ↔ ∃ v, field.value? = some v ∧ entry = (key, v) := by
  cases field <;> simp [Field.entry, Field.value?]

/-- What is found of a part of an invocation error. -/
@[simp]
theorem InvocationError.value?_field {α : Type _} (part : Option α) (toValue : α → Value) :
    ((field part).map toValue).value? = part.map toValue := by
  cases part <;> rfl

namespace Schema

/-- A dictionary is read by its entries, unless it stands for a result that is still to come. -/
theorem object_eq_ok_iff {α : Type _} {read : Dict → Checked α} {v : Value} {a : α} :
    object read v = .ok a ↔
      ∃ d : Dict, v = .dict d ∧ Dict.isPromise d = false ∧ read d = .ok a := by
  cases v with
  | primitive p => simp [object, Checked.refuse_ne_ok]
  | function => simp [object, Checked.refuse_ne_ok]
  | list items => simp [object, Checked.refuse_ne_ok]
  | dict d =>
    cases hd : Dict.isPromise d with
    | false => simp [object, hd]
    | true => simp [object, hd, Checked.refuse_ne_ok]

/-- A dictionary has the given keys only if none of its keys is another. -/
theorem onlyKeys_eq_ok_iff {keys : List String} {d : Dict} {u : Unit} :
    onlyKeys keys d = .ok u ↔ ∀ key ∈ d.keys, key ∈ keys := by
  unfold onlyKeys
  split
  · next hnone => simpa [List.filter_eq_nil_iff] using hnone
  · next unknown hunknown =>
    constructor
    · exact fun h => absurd h Checked.refuse_ne_ok
    · intro h
      exact absurd (List.filter_eq_nil_iff.mpr (by simpa using h)) hunknown

/-- A part that may be left out is accepted if it is left out, has no value or has one that is
accepted. -/
theorem optional_eq_ok_iff {α : Type _} {schema : Value → Checked α} {v? : Option Value}
    {part : Field α} :
    optional schema v? = .ok part ↔
      (v? = none ∧ part = .absent) ∨ (v? = some .undefined ∧ part = .undefined) ∨
        ∃ v a, v? = some v ∧ v ≠ .undefined ∧ schema v = .ok a ∧ part = .given a := by
  rw [optional.eq_def]
  split
  · simp [eq_comm]
  · simp [eq_comm]
  · next v hgiven =>
    rw [map_eq_ok_iff]
    constructor
    · rintro ⟨a, ha, rfl⟩
      exact .inr (.inr ⟨v, a, rfl, fun heq => hgiven heq, ha, rfl⟩)
    · rintro (⟨hnone, -⟩ | ⟨hundefined, -⟩ | ⟨w, a, hw, -, ha, rfl⟩)
      · cases hnone
      · exact absurd (Option.some.inj hundefined) hgiven
      · exact ⟨a, Option.some.inj hw ▸ ha, rfl⟩

/-- A string that is found where the value of a missing entry stands in is there. -/
theorem get?_of_getD {d : Dict} {key s : String}
    (h : (d.get? key).getD .undefined = .string s) : d.get? key = some (.string s) := by
  cases hfound : d.get? key with
  | none =>
    rw [hfound] at h
    cases h
  | some v =>
    rw [hfound] at h
    exact congrArg some h

/-- An entry that is accepted as a URI is there. -/
theorem get?_of_uri {d : Dict} {key uri : String}
    (h : Schema.uri ((d.get? key).getD .undefined) = .ok uri) :
    d.get? key = some (.string uri) :=
  get?_of_getD (uri_eq_ok_iff.mp h).1

/-- A schema accepts only what may travel, and what it makes of it is the stripped value. -/
def Strips {α : Type} (schema : Value → Checked α) (toValue : α → Value) : Prop :=
  ∀ v a, schema v = .ok a → v.IsWire ∧ v.stripped = toValue a

/-- Lists are stripped. -/
theorem strips_list : Strips list .list := by
  intro v ws h
  obtain ⟨items, rfl, hwire, rfl⟩ := list_eq_ok_iff.mp h
  exact ⟨hwire, by rw [Value.stripped]⟩

/-- Dictionaries are stripped. -/
theorem strips_dict : Strips dict .dict := by
  intro v ws h
  obtain ⟨d, rfl, hwire, rfl⟩ := dict_eq_ok_iff.mp h
  exact ⟨hwire, by rw [Value.stripped]⟩

/-- A payload is accepted if its URI is one, each of its parts is left out, without a value or
accepted, and it has no other key. -/
theorem payloadEntries_eq_ok_iff {d : Dict} {p : Payload} :
    payloadEntries d = .ok p ↔
      uri ((d.get? "uri").getD .undefined) = .ok p.uri ∧
        optional list (d.get? "args") = .ok p.args ∧
        optional dict (d.get? "kwargs") = .ok p.kwargs ∧
        optional dict (d.get? "details") = .ok p.details ∧
        ∀ key ∈ d.keys, key ∈ Payload.keys := by
  unfold payloadEntries part
  rw [map_eq_ok_iff]
  constructor
  · rintro ⟨⟨⟨s, args, kwargs, details⟩, u⟩, hparts, rfl⟩
    simp only [Checked.and_eq_ok_iff, Checked.below_eq_ok_iff, onlyKeys_eq_ok_iff] at hparts
    obtain ⟨⟨huri, hargs, hkwargs, hdetails⟩, hkeys⟩ := hparts
    exact ⟨huri, hargs, hkwargs, hdetails, hkeys⟩
  · rintro ⟨huri, hargs, hkwargs, hdetails, hkeys⟩
    refine ⟨⟨⟨p.uri, p.args, p.kwargs, p.details⟩, ()⟩, ?_, rfl⟩
    simp only [Checked.and_eq_ok_iff, Checked.below_eq_ok_iff, onlyKeys_eq_ok_iff]
    exact ⟨⟨huri, hargs, hkwargs, hdetails⟩, hkeys⟩

end Schema

namespace InvocationError

/-! ## From an invocation error to its payload and back -/

/-- The entries of the payload of an invocation error. -/
theorem mem_record_toPayload {e : InvocationError} {entry : String × Value} :
    entry ∈ e.toPayload.record ↔ entry = ("uri", .string e.uri) ∨
      (∃ items, e.args = some items ∧ entry = ("args", .list items)) ∨
      (∃ d, e.kwargs = some d ∧ entry = ("kwargs", .dict d)) ∨
      ∃ d, e.details = some d ∧ entry = ("details", .dict d) := by
  simp [Payload.record, toPayload, Field.mem_entry]

/-- Under the keys of a payload the parts of the invocation error are found, and nothing under any
other. -/
theorem get?_record_toPayload (e : InvocationError) (key : String) :
    e.toPayload.record.get? key =
      if "uri" = key then some (.string e.uri)
      else if "args" = key then e.args.map .list
      else if "kwargs" = key then e.kwargs.map .dict
      else if "details" = key then e.details.map .dict
      else none := by
  simp only [Dict.get?, Payload.record, toPayload, Assoc.get?_append, Field.get?_entry,
    value?_field, Assoc.get?]
  by_cases huri : "uri" = key
  · simp [huri]
  by_cases hargs : "args" = key
  · subst hargs
    simp
  by_cases hkwargs : "kwargs" = key
  · subst hkwargs
    simp
  simp [huri, hargs, hkwargs]

/-- The payload of an invocation error has the keys of a payload only. -/
theorem keys_record_toPayload (e : InvocationError) :
    ∀ key ∈ e.toPayload.record.keys, key ∈ Payload.keys := by
  intro key hkey
  obtain ⟨entry, hentry, rfl⟩ := List.mem_map.mp hkey
  rcases mem_record_toPayload.mp hentry with rfl | ⟨_, -, rfl⟩ | ⟨_, -, rfl⟩ | ⟨_, -, rfl⟩
  · simp [Payload.keys]
  · simp [Payload.keys]
  · simp [Payload.keys]
  · simp [Payload.keys]

/-- There is something in every entry of the payload of a normal invocation error. -/
theorem Normal.hasContent {e : InvocationError} (h : e.Normal) :
    ∀ entry ∈ e.toPayload.record, entry.2.hasContent = true := by
  intro entry hentry
  rcases mem_record_toPayload.mp hentry with rfl | ⟨items, hargs, rfl⟩ | ⟨d, hkwargs, rfl⟩ |
    ⟨d, hdetails, rfl⟩
  · rfl
  · cases items with
    | nil => exact absurd hargs h.args
    | cons v rest => rfl
  · cases d with
    | nil => exact absurd hkwargs h.kwargs
    | cons v rest => rfl
  · cases d with
    | nil => exact absurd hdetails h.details
    | cons v rest => rfl

/-- A part that travels as it is is accepted as the part. -/
theorem optional_map {α : Type _} {schema : Value → Checked α} {toValue : α → Value}
    {part : Option α} (hpart : ∀ a, part = some a → schema (toValue a) = .ok a)
    (hvalue : ∀ a, toValue a ≠ .undefined) :
    Schema.optional schema (part.map toValue) = .ok (field part) := by
  rw [Schema.optional_eq_ok_iff]
  cases part with
  | none => exact .inl ⟨rfl, rfl⟩
  | some a => exact .inr (.inr ⟨toValue a, a, rfl, hvalue a, hpart a rfl, rfl⟩)

/-- The payload of a normal invocation error whose parts travel as they are is accepted. -/
theorem Normal.payload_record {e : InvocationError} (h : e.Normal) (hportable : e.Portable) :
    Schema.payload (.dict e.toPayload.record) = .ok e.toPayload := by
  have huri : e.toPayload.record.get? "uri" = some (.string e.uri) := by
    simp [get?_record_toPayload]
  have hargs : e.toPayload.record.get? "args" = e.args.map .list := by
    simp [get?_record_toPayload]
  have hkwargs : e.toPayload.record.get? "kwargs" = e.kwargs.map .dict := by
    simp [get?_record_toPayload]
  have hdetails : e.toPayload.record.get? "details" = e.details.map .dict := by
    simp [get?_record_toPayload]
  have hpromise : Dict.isPromise e.toPayload.record = false := by
    simp [Dict.isPromise, Dict.hasFunction, get?_record_toPayload]
  refine Schema.object_eq_ok_iff.mpr ⟨_, rfl, hpromise, Schema.payloadEntries_eq_ok_iff.mpr ?_⟩
  have hlist (items : List Value) : Value.list items ≠ .undefined := by
    intro heq
    cases heq
  have hdict (d : Dict) : Value.dict d ≠ .undefined := by
    intro heq
    cases heq
  rw [huri, hargs, hkwargs, hdetails]
  refine ⟨Schema.uri_eq_ok_iff.mpr ⟨rfl, h.uri⟩, ?args, ?kwargs, ?details,
    e.keys_record_toPayload⟩
  case args =>
    exact optional_map (fun items heq => Schema.list_of_portable (hportable.args items heq)) hlist
  case kwargs =>
    exact optional_map (fun d heq => Schema.dict_of_portable (hportable.kwargs d heq)) hdict
  case details =>
    exact optional_map (fun d heq => Schema.dict_of_portable (hportable.details d heq)) hdict

/-- A normal invocation error whose parts travel as they are is rebuilt from its payload, but for
its class and its cause. -/
theorem Normal.ofPayload_record {e : InvocationError} (h : e.Normal) (hportable : e.Portable) :
    ofPayload (.dict e.toPayload.record) = .ok { e with derived := none, cause := none } := by
  rw [ofPayload, h.payload_record hportable]
  refine h.make_eq ?_ ?_ ?_
  · exact (congrArg nonEmpty (toOption_field e.args)).trans (nonEmpty_eq_self h.args)
  · exact (congrArg nonEmpty (toOption_field e.kwargs)).trans (nonEmpty_eq_self h.kwargs)
  · exact (congrArg nonEmpty (toOption_field e.details)).trans (nonEmpty_eq_self h.details)

/-! ## From a payload to the invocation error and back -/

section

variable {α : Type} {schema : Value → Checked (List α)} {toValue : List α → Value} {d : Dict}
  {key : String} {part : Field (List α)}

/-- What is left of a part that was accepted is the entry of the canonical form. -/
theorem entry_eq_canonicalEntry (hschema : Schema.Strips schema toValue)
    (hcontent : ∀ items, (toValue items).hasContent = !items.isEmpty)
    (h : Schema.optional schema (d.get? key) = .ok part) :
    ((field (nonEmpty part.toOption)).map toValue).entry key = Payload.canonicalEntry d key := by
  rw [Payload.canonicalEntry]
  rcases Schema.optional_eq_ok_iff.mp h with
    ⟨hnone, rfl⟩ | ⟨hundefined, rfl⟩ | ⟨v, items, hgiven, -, hitems, rfl⟩
  · rw [hnone]
    rfl
  · rw [hundefined]
    rfl
  · rw [hgiven, Option.map_some, (hschema v items hitems).2]
    -- Items that are left make an entry on both sides, and none make none.
    cases items with
    | nil => simp [Option.filter, hcontent, nonEmpty, Field.toOption, field, Field.map, Field.entry]
    | cons a rest =>
      simp [Option.filter, hcontent, nonEmpty, Field.toOption, field, Field.map, Field.entry]

/-- What is left of a part that was accepted travels as it is. -/
theorem portable_of_optional (hschema : Schema.Strips schema toValue)
    (h : Schema.optional schema (d.get? key) = .ok part) {items : List α}
    (hleft : nonEmpty part.toOption = some items) : (toValue items).Portable := by
  have hitems : part.toOption = some items := (Option.filter_eq_some_iff.mp hleft).1
  rcases Schema.optional_eq_ok_iff.mp h with ⟨-, rfl⟩ | ⟨-, rfl⟩ | ⟨v, read, -, -, hread, rfl⟩
  · cases hitems
  · cases hitems
  · obtain rfl : read = items := Option.some.inj hitems
    obtain ⟨hwire, hstripped⟩ := hschema v read hread
    exact hstripped ▸ hwire.portable_stripped

end

/-- What a list has in it are its items. -/
theorem hasContent_list (items : List Value) :
    (Value.list items).hasContent = !items.isEmpty := by
  cases items <;> rfl

/-- What a dictionary has in it are its entries. -/
theorem hasContent_dict (d : Dict) : (Value.dict d).hasContent = !d.isEmpty := by
  cases d <;> rfl

/-- The payload of an invocation error that was rebuilt is the canonical form of what it was rebuilt
from, its parts travel as they are, and it has no class or cause of its own. -/
theorem exists_of_ofPayload {v : Value} {e : InvocationError} (h : ofPayload v = .ok e) :
    ∃ d : Dict, v = .dict d ∧ e.toPayload.record = Payload.canonical d ∧ e.Portable ∧
      { e with derived := none, cause := none } = e := by
  unfold ofPayload at h
  split at h
  · next p hp =>
    obtain ⟨d, rfl, -, hentries⟩ := Schema.object_eq_ok_iff.mp hp
    obtain ⟨huri, hargs, hkwargs, hdetails, -⟩ := Schema.payloadEntries_eq_ok_iff.mp hentries
    obtain ⟨uri, hvalid, rfl⟩ := map_eq_ok_iff.mp h
    obtain ⟨-, rfl⟩ := Uri.validate_eq_ok_iff.mp hvalid
    refine ⟨d, rfl, ?canonical, ?portable, rfl⟩
    case canonical =>
      have huri : Payload.canonicalEntry d "uri" = [("uri", .string p.uri)] := by
        rw [Payload.canonicalEntry, Schema.get?_of_uri huri]
        rfl
      rw [Payload.record, toPayload,
        entry_eq_canonicalEntry Schema.strips_list hasContent_list hargs,
        entry_eq_canonicalEntry Schema.strips_dict hasContent_dict hkwargs,
        entry_eq_canonicalEntry Schema.strips_dict hasContent_dict hdetails, ← huri]
      simp [Payload.canonical, Payload.keys]
    case portable =>
      exact ⟨fun _ => portable_of_optional Schema.strips_list hargs,
        fun _ => portable_of_optional Schema.strips_dict hkwargs,
        fun _ => portable_of_optional Schema.strips_dict hdetails⟩
  · cases h

/-- An invocation error that a program can have, with parts that travel as they are, is rebuilt from
its payload, but for its class and its cause. A payload that is accepted is written again in its
canonical form, which is accepted and written as it is. There is something in every entry that an
invocation error writes. -/
theorem payload_roundTrip :
    (∀ (s : Store) id e, s.Reachable → s.invocation? id = some e → e.Portable →
      ofPayload (.dict e.toPayload.record) = .ok { e with derived := none, cause := none }) ∧
    (∀ v e, ofPayload v = .ok e → ∃ d : Dict, v = .dict d ∧
      Payload.reencode v = .ok (.dict (Payload.canonical d)) ∧
      Payload.reencode (.dict (Payload.canonical d)) = .ok (.dict (Payload.canonical d))) ∧
    ∀ (s : Store) id e, s.Reachable → s.invocation? id = some e →
      ∀ entry ∈ e.toPayload.record, entry.2.hasContent = true := by
  refine ⟨fun s id e hs he hportable => ?rebuilt, fun v e h => ?written,
    fun s id e hs he => (hs.wellFormed.normal id e he).hasContent⟩
  case rebuilt => exact (hs.wellFormed.normal id e he).ofPayload_record hportable
  case written =>
    obtain ⟨d, rfl, hrecord, hportable, hself⟩ := exists_of_ofPayload h
    have hagain := (constructed_of_ofPayload h).normal.ofPayload_record hportable
    rw [hrecord, hself] at hagain
    refine ⟨d, rfl, ?_, ?_⟩
    · rw [Payload.reencode, h, ← hrecord]
      rfl
    · rw [Payload.reencode, hagain, ← hrecord]
      rfl

/-- A payload with an empty list of arguments and with details that hold nothing but a reserved key
is written again without either, and what is written describes the same invocation error. -/
theorem payload_roundTrip_stripped :
    let v : Value := .dict [("kwargs", .dict [("__proto__", .null), ("k", .dict [])]),
      ("uri", .string "com.example.bad"), ("args", .list []),
      ("details", .dict [("__proto__", .bool true)])]
    let written : Dict := [("uri", .string "com.example.bad"), ("kwargs", .dict [("k", .dict [])])]
    let e : InvocationError :=
      ⟨none, "com.example.bad", none, some [("k", .dict [])], none, "com.example.bad", none⟩
    ofPayload v = .ok e ∧ Payload.reencode v = .ok (.dict written) ∧
      Payload.reencode (.dict written) = .ok (.dict written) ∧
      ofPayload (.dict written) = .ok e := by
  intro v written e
  have hread : ofPayload v = .ok e := rfl
  obtain ⟨hrebuilt, hwritten, -⟩ := payload_roundTrip
  obtain ⟨d, hd, hfirst, hsecond⟩ := hwritten v e hread
  obtain rfl := Value.dict.inj hd
  have hportable : e.Portable := by
    refine ⟨nofun, ?_, nofun⟩
    rintro kwargs ⟨⟩
    simp [Value.Portable, reservedKey]
  exact ⟨hread, hfirst, hsecond,
    hrebuilt (Store.empty.setFields ⟨1⟩ e) ⟨1⟩ e (.rebuilt .empty ⟨1⟩ hread) rfl hportable⟩

end InvocationError

end Wamp
