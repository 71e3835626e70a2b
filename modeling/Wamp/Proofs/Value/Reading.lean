import Wamp.Proofs.Failure.Payload
import Wamp.Proofs.Message.Canonical
import Wamp.Proofs.Registry.Reply

/-!
# What reading a value returns

Reading drops an entry from the result and still checks what stands under its key, so a value is
accepted by more than what is left of it. The two are compared along paths: `Value.at?` follows a
path into a value, and the result of reading holds, where no step is the reserved key, what reading
the part alone returns, and beyond a reserved key nothing. `Value.reading_all` puts together which
values are read and what comes of them, and that no dictionary in anything that is read, be it a
message, a payload or the arguments of a failure, has the reserved key.
-/

namespace Wamp

namespace Value

/-! ## Stripping a list and a dictionary -/

/-- What is left of the entries of a dictionary: those of other keys than the reserved one, in their
order, with their values stripped. -/
theorem strippedEntries_eq_map (d : Dict) :
    strippedEntries d = (d.filter (·.1 ≠ reservedKey)).map fun e => (e.1, e.2.stripped) := by
  induction d with
  | nil => rfl
  | cons entry rest ih =>
    obtain ⟨key, v⟩ := entry
    by_cases h : key = reservedKey
    · rw [strippedEntries, if_pos h, ih, List.filter_cons_of_neg (by simpa using h)]
    · rw [strippedEntries, if_neg h, ih, List.filter_cons_of_pos (by simpa using h), List.map_cons]

/-- A key other than the reserved one leads to the same value, stripped. -/
theorem get?_strippedEntries {key : String} (h : key ≠ reservedKey) (d : Dict) :
    Dict.get? (strippedEntries d) key = (Dict.get? d key).map stripped := by
  induction d with
  | nil => rfl
  | cons entry rest ih =>
    obtain ⟨k, v⟩ := entry
    unfold Dict.get? at ih ⊢
    by_cases hk : k = key
    · simp [strippedEntries, Assoc.get?, hk, h]
    · by_cases hr : k = reservedKey
      · simp [strippedEntries, Assoc.get?, hr, Ne.symm h, ih]
      · simp [strippedEntries, Assoc.get?, hr, hk, ih]

/-- Nothing is left under the reserved key. -/
theorem get?_strippedEntries_reserved (d : Dict) :
    Dict.get? (strippedEntries d) reservedKey = none := by
  cases h : Dict.get? (strippedEntries d) reservedKey with
  | none => rfl
  | some w => exact absurd rfl (mem_strippedEntries.1 (Assoc.mem_of_get? h)).1

/-! ## Parts of a value -/

/-- The part of a value that a step leads to. -/
def child? : Value → PathStep → Option Value
  | .list items, .index position => items[position]?
  | .dict d, .key name => Dict.get? d name
  | _, _ => none

/-- The part of a value that a path leads to. -/
def at? (v : Value) : List PathStep → Option Value
  | [] => some v
  | step :: path => (v.child? step).bind (·.at? path)

/-- A step other than to the reserved key leads to the same part, stripped. -/
theorem child?_stripped {step : PathStep} (h : step ≠ .key reservedKey) (v : Value) :
    v.stripped.child? step = (v.child? step).map stripped := by
  cases v with
  | primitive p => rfl
  | function => rfl
  | list items =>
    rw [stripped, strippedItems_eq_map]
    cases step with
    | index position => exact List.getElem?_map
    | key name => rfl
  | dict d =>
    rw [stripped]
    cases step with
    | index position => rfl
    | key name => exact get?_strippedEntries (fun heq => h (congrArg PathStep.key heq)) d

/-- The step to the reserved key leads nowhere after stripping. -/
theorem child?_stripped_reserved (v : Value) : v.stripped.child? (.key reservedKey) = none := by
  cases v with
  | primitive p => rfl
  | function => rfl
  | list items => rfl
  | dict d => exact get?_strippedEntries_reserved d

/-- A path around the reserved key leads to the same part, stripped. -/
theorem at?_stripped {path : List PathStep} (h : .key reservedKey ∉ path) (v : Value) :
    v.stripped.at? path = (v.at? path).map stripped := by
  induction path generalizing v with
  | nil => rfl
  | cons step path ih =>
    obtain ⟨hstep, hpath⟩ := not_or.1 (mt List.mem_cons.2 h)
    rw [at?, at?, child?_stripped (Ne.symm hstep)]
    cases v.child? step with
    | none => rfl
    | some u => exact ih hpath u

/-- A path through the reserved key leads nowhere after stripping. -/
theorem at?_stripped_reserved {path : List PathStep} (h : .key reservedKey ∈ path) (v : Value) :
    v.stripped.at? path = none := by
  induction path generalizing v with
  | nil => cases h
  | cons step path ih =>
    rw [at?]
    by_cases hstep : step = .key reservedKey
    · rw [hstep, child?_stripped_reserved]
      rfl
    -- The reserved key comes later, and the first step leads to a part that is stripped as well.
    · have hpath := (List.mem_cons.1 h).resolve_left (Ne.symm hstep)
      rw [child?_stripped hstep]
      cases v.child? step with
      | none => rfl
      | some u => exact ih hpath u

/-- A part of a value that may travel may travel, also under the reserved key. -/
theorem IsWire.of_child? {v u : Value} {step : PathStep} (h : v.IsWire)
    (hu : v.child? step = some u) : u.IsWire := by
  unfold child? at hu
  split at hu
  · exact isWire_list_iff.1 h u (List.mem_of_getElem? hu)
  · exact isWire_dict_iff.1 h _ (Assoc.mem_of_get? hu)
  · cases hu

/-- Wherever a path leads in a value that may travel, the part may travel. -/
theorem IsWire.of_at? {v u : Value} {path : List PathStep} (h : v.IsWire)
    (hu : v.at? path = some u) : u.IsWire := by
  induction path generalizing v with
  | nil =>
    obtain rfl : v = u := Option.some.inj hu
    exact h
  | cons step path ih =>
    obtain ⟨part, hpart, hrest⟩ := Option.bind_eq_some_iff.1 hu
    exact ih (h.of_child? hpart) hrest

end Value

/-! ## Messages, payloads and arguments -/

/-- The entry of a field is without reserved keys if its key is another one and its value is without
them. -/
theorem Field.unreserved_entry {key : String} {field : Field Value} (hkey : key ≠ reservedKey)
    (h : ∀ v, field = .given v → v.Unreserved) : (Value.dict (field.entry key)).Unreserved := by
  cases field with
  | absent => simp [Field.entry]
  | undefined => simp [Field.entry, hkey]
  | given v => simp [Field.entry, hkey, h v rfl]

/-- A dictionary is without reserved keys if its first entry and the others are. -/
theorem Value.unreserved_cons_iff {key : String} {v : Value} {rest : Dict} :
    (Value.dict ((key, v) :: rest)).Unreserved ↔
      key ≠ reservedKey ∧ v.Unreserved ∧ (Value.dict rest).Unreserved := by
  simp only [unreserved_dict_iff, List.forall_mem_cons]
  tauto

/-- Two dictionaries without reserved keys are without them when they are put together. -/
theorem Value.unreserved_append {d rest : Dict} (hd : (Value.dict d).Unreserved)
    (hrest : (Value.dict rest).Unreserved) : (Value.dict (d ++ rest)).Unreserved := by
  rw [unreserved_dict_iff] at *
  simp only [List.forall_mem_append]
  exact ⟨⟨hd.1, hrest.1⟩, hd.2, hrest.2⟩

/-- A field that is converted has a value without reserved keys if every value that it can be given
has one. -/
theorem Field.unreserved_map {α : Type _} {field : Field α} {toValue : α → Value}
    (h : ∀ a, field = .given a → (toValue a).Unreserved) :
    ∀ v, field.map toValue = .given v → v.Unreserved := by
  intro v hv
  cases field with
  | given a =>
    cases hv
    exact h a rfl
  | absent | undefined => cases hv

/-- No dictionary in a valid message has the reserved key. -/
theorem Message.Valid.unreserved {m : Message} (h : m.Valid) :
    (Value.dict m.record).Unreserved := by
  cases m with
  | abort m =>
    simp only [record, Value.unreserved_cons_iff]
    exact ⟨by decide, .primitive _, by decide, h.details.2, by decide, .primitive _, by simp⟩
  | error m =>
    simp only [record, ErrorMessage.record, Value.unreserved_cons_iff]
    exact ⟨by decide, .primitive _, by decide, .primitive _, by decide, .primitive _, by decide,
      h.details.2, by decide, .primitive _, by decide, h.args.2, by decide, h.kwargs.2, by simp⟩
  | event m =>
    refine Value.unreserved_append (Value.unreserved_append ?ids ?args) ?kwargs
    case ids =>
      simp only [Value.unreserved_cons_iff]
      exact ⟨by decide, .primitive _, by decide, .primitive _, by decide, .primitive _, by decide,
        h.details.2, by simp⟩
    case args =>
      exact Field.unreserved_entry (by decide)
        (Field.unreserved_map fun items hitems => (h.args items hitems).2)
    case kwargs =>
      exact Field.unreserved_entry (by decide)
        (Field.unreserved_map fun d hd => (h.kwargs d hd).2)
  | interrupt m =>
    simp only [record, Value.unreserved_cons_iff]
    exact ⟨by decide, .primitive _, by decide, .primitive _, by decide, h.options.2, by simp⟩

/-- No dictionary in a message that was read has the reserved key. -/
theorem Message.unreserved_of_parse {v : Value} {m : Message} (h : parse v = .ok m) :
    (Value.dict m.record).Unreserved := by
  obtain ⟨items, -, hgrammar⟩ := message_eq_ok_iff_grammar.1 (parse_eq_ok_iff.1 h)
  exact hgrammar.valid.unreserved

/-- No dictionary in the payload of an invocation error whose parts travel as they are has the
reserved key. -/
theorem InvocationError.Portable.unreserved {e : InvocationError} (h : e.Portable) :
    (Value.dict e.toPayload.record).Unreserved := by
  have hgiven {α : Type} {part : Option α} {a : α} (ha : field part = .given a) :
      part = some a := by
    rw [← toOption_field part, ha]
    rfl
  refine Value.unreserved_append (Value.unreserved_append (Value.unreserved_append ?uri ?args)
    ?kwargs) ?details
  case uri => simp [reservedKey, toPayload]
  case args =>
    exact Field.unreserved_entry (by decide)
      (Field.unreserved_map fun items hitems => (h.args items (hgiven hitems)).2)
  case kwargs =>
    exact Field.unreserved_entry (by decide)
      (Field.unreserved_map fun d hd => (h.kwargs d (hgiven hd)).2)
  case details =>
    exact Field.unreserved_entry (by decide)
      (Field.unreserved_map fun d hd => (h.details d (hgiven hd)).2)

/-- No dictionary in an invocation error that was rebuilt from a payload has the reserved key. -/
theorem InvocationError.unreserved_of_ofPayload {v : Value} {e : InvocationError}
    (h : ofPayload v = .ok e) : (Value.dict e.toPayload.record).Unreserved := by
  obtain ⟨d, -, -, hportable, -⟩ := exists_of_ofPayload h
  exact hportable.unreserved

/-- No dictionary in the positional arguments to report for what was thrown has the reserved key. -/
theorem Thrown.unreserved_positionalArgs (failure : Thrown) :
    (Value.list failure.positionalArgs).Unreserved := by
  by_cases h : failure = .primitive (.number .nan)
  -- What is not a number is reported although it may not travel, but it has no keys.
  · rw [h]
    exact .list (List.forall_mem_singleton.2 (.primitive _))
  · exact (portable_positionalArgs h).2

/-! ## All values -/

namespace Value

/-- Whether a value is read, and what comes of it. -/
structure Reading (v : Value) : Prop where
  /-- It is read if it may travel, and what is returned is what is left of it. -/
  read : ∀ w, Schema.value v = .ok w ↔ v.IsWire ∧ w = v.stripped
  /-- Of a list all items are left, in their order. -/
  list : ∀ items, v = .list items → v.stripped = .list (items.map stripped)
  /-- Of a dictionary all entries but the reserved one are left, in their order. -/
  dict : ∀ d, v = .dict d →
    v.stripped = .dict ((d.filter (·.1 ≠ reservedKey)).map fun e => (e.1, e.2.stripped))
  /-- What has no parts is left as it is. -/
  leaf : (∀ items, v ≠ .list items) → (∀ d, v ≠ .dict d) → v.stripped = v
  /-- No dictionary in the result has the reserved key. -/
  unreserved : ∀ w, Schema.value v = .ok w → w.Unreserved
  /-- The result is read as it is. -/
  again : ∀ w, Schema.value v = .ok w → Schema.value w = .ok w
  /-- Each part is read alone, and unless it stands under a reserved key, what comes of it stands at
  its place in the result. -/
  part : ∀ w, Schema.value v = .ok w → ∀ path u, v.at? path = some u →
    ∃ r, Schema.value u = .ok r ∧ (.key reservedKey ∉ path → w.at? path = some r)
  /-- Each part of the result comes from a part that does not stand under a reserved key. -/
  source : ∀ w, Schema.value v = .ok w → ∀ path r, w.at? path = some r →
    .key reservedKey ∉ path ∧ ∃ u, v.at? path = some u ∧ Schema.value u = .ok r

/-- A part of a value that is read is read alone, as what is left of it. -/
theorem value_of_at? {v u : Value} {path : List PathStep} (h : v.IsWire)
    (hu : v.at? path = some u) : Schema.value u = .ok u.stripped :=
  Schema.value_eq_ok_iff.2 ⟨h.of_at? hu, rfl⟩

/-- Every value is read, if it may travel, as what is left of it. -/
theorem reading (v : Value) : Reading v where
  read _ := Schema.value_eq_ok_iff
  list := by
    rintro items rfl
    rw [stripped, strippedItems_eq_map]
  dict := by
    rintro d rfl
    rw [stripped, strippedEntries_eq_map]
  leaf hlist hdict := by
    cases v with
    | primitive p => rfl
    | function => rfl
    | list items => exact absurd rfl (hlist items)
    | dict d => exact absurd rfl (hdict d)
  unreserved w h := by
    obtain ⟨-, rfl⟩ := Schema.value_eq_ok_iff.1 h
    exact unreserved_stripped v
  again w h := by
    obtain ⟨hwire, rfl⟩ := Schema.value_eq_ok_iff.1 h
    have hportable := hwire.portable_stripped
    exact Schema.value_eq_ok_iff.2 ⟨hportable.1, hportable.2.stripped_eq.symm⟩
  part w h path u hu := by
    obtain ⟨hwire, rfl⟩ := Schema.value_eq_ok_iff.1 h
    refine ⟨u.stripped, value_of_at? hwire hu, fun hpath => ?_⟩
    rw [at?_stripped hpath, hu]
    rfl
  source w h path r hr := by
    obtain ⟨hwire, rfl⟩ := Schema.value_eq_ok_iff.1 h
    have hpath : .key reservedKey ∉ path := by
      intro hmem
      rw [at?_stripped_reserved hmem] at hr
      cases hr
    rw [at?_stripped hpath] at hr
    obtain ⟨u, hu, rfl⟩ := Option.map_eq_some_iff.1 hr
    exact ⟨hpath, u, hu, value_of_at? hwire hu⟩

/-- Every value is read, if it may travel, as what is left of it without the reserved key, and no
dictionary in what is read as a message, rebuilt from a payload or reported as the arguments of a
failure has that key. -/
theorem reading_all :
    (∀ v, Reading v) ∧
    (∀ v m, Message.parse v = .ok m → (Value.dict m.record).Unreserved) ∧
    (∀ v e, InvocationError.ofPayload v = .ok e → (Value.dict e.toPayload.record).Unreserved) ∧
    ∀ failure : Thrown, (Value.list failure.positionalArgs).Unreserved :=
  ⟨reading, fun _ _ => Message.unreserved_of_parse,
    fun _ _ => InvocationError.unreserved_of_ofPayload, Thrown.unreserved_positionalArgs⟩

/-- A dictionary inside a list inside a dictionary loses its reserved key, also below an error
message and below a payload, and is read alone as what it is in the whole. -/
theorem reading_all_nested :
    let part : Value := .dict [("x", .null), ("__proto__", .bool true)]
    let v : Value :=
      .dict [("__proto__", .dict [("a", .number (.infinity true))]), ("k", .list [part])]
    let w : Value := .dict [("k", .list [.dict [("x", .null)]])]
    let m : Message := .interrupt ⟨.int 5, [("k", .list [.dict [("x", .null)]])]⟩
    let p : Payload := ⟨"com.example.bad", .given [w], .absent, .absent⟩
    Schema.value v = .ok w ∧ w.Unreserved ∧ Schema.value w = .ok w ∧
      (∃ r, Schema.value part = .ok r ∧ w.at? [.key "k", .index 0] = some r) ∧
      (Value.dict m.record).Unreserved ∧ (Value.dict p.record).Unreserved := by
  intro part v w m p
  obtain ⟨hreading, hmessage, hpayload, -⟩ := reading_all
  obtain ⟨-, -, -, -, hunreserved, hagain, hpart, -⟩ := hreading v
  have hv : Schema.value v = .ok w := rfl
  have hparse :
      Message.parse (.list [.number (.int 69), .number (.int 5), v]) = .ok m := rfl
  have hrebuilt :
      InvocationError.ofPayload (.dict [("uri", .string "com.example.bad"), ("args", .list [v])]) =
        .ok ⟨none, "com.example.bad", some [w], none, none,
          InvocationError.render "com.example.bad" (some [w]), none⟩ := rfl
  obtain ⟨r, hr, hplace⟩ := hpart w hv [.key "k", .index 0] part rfl
  exact ⟨hv, hunreserved w hv, hagain w hv, ⟨r, hr, hplace (by decide)⟩, hmessage _ m hparse,
    hpayload _ _ hrebuilt⟩

end Value

end Wamp
