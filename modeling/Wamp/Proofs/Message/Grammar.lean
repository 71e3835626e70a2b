import Wamp.Proofs.Message.Shape

/-!
# The grammar of messages

`Message.Grammar` says which lists are messages and what each of them is read as, in terms of the
values alone: four forms, of which errors and events may end with a payload. It knows of no schema,
no shape and no order in which anything is tried, and reading a value accepts exactly this grammar
(`Message.message_eq_ok_iff_grammar`). Since a value has at most one shape, alternatives may be
tried in any order (`Schema.oneOf_eq_of_perm`).
-/

namespace Wamp

namespace Message

/-- The payload at the end of a list, and what its arguments are read as: none, positional ones, or
positional ones followed by keyword ones. -/
inductive PayloadForm : List Value → Field (List Value) → Field Dict → Prop
  | none : PayloadForm [] .absent .absent
  | args {items : List Value} (hitems : (Value.list items).IsWire) :
      PayloadForm [.list items] (.given (Value.strippedItems items)) .absent
  | kwargs {items : List Value} {entries : Dict} (hitems : (Value.list items).IsWire)
      (hentries : (Value.dict entries).IsWire) :
      PayloadForm [.list items, .dict entries] (.given (Value.strippedItems items))
        (.given (Value.strippedEntries entries))

/-- The lists that are messages, and the message that each is read as: its elements, without the
reserved key in any dictionary. -/
inductive Grammar : List Value → Message → Prop
  | abort {details : Dict} {reason : String} (hdetails : (Value.dict details).IsWire)
      (hreason : Uri.isUri .default reason = true) :
      Grammar [.number (.int 3), .dict details, .string reason]
        (.abort ⟨Value.strippedEntries details, reason⟩)
  | error {requestType : MessageKind} {requestId : Number} {details : Dict} {error : String}
      {payload : List Value} {args : Field (List Value)} {kwargs : Field Dict}
      (hid : requestId.IsId) (hdetails : (Value.dict details).IsWire)
      (herror : Uri.isUri .default error = true) (hpayload : PayloadForm payload args kwargs) :
      Grammar ([.number (.int 8), .number (.int requestType.code), .number requestId,
          .dict details, .string error] ++ payload)
        (.error ⟨requestType, requestId, Value.strippedEntries details, error,
          args.toOption.getD [], kwargs.toOption.getD []⟩)
  | event {subscriptionId publicationId : Number} {details : Dict}
      {payload : List Value} {args : Field (List Value)} {kwargs : Field Dict}
      (hsubscription : subscriptionId.IsId) (hpublication : publicationId.IsId)
      (hdetails : (Value.dict details).IsWire) (hpayload : PayloadForm payload args kwargs) :
      Grammar ([.number (.int 36), .number subscriptionId, .number publicationId, .dict details]
          ++ payload)
        (.event ⟨subscriptionId, publicationId, Value.strippedEntries details, args, kwargs⟩)
  | interrupt {requestId : Number} {options : Dict} (hid : requestId.IsId)
      (hoptions : (Value.dict options).IsWire) :
      Grammar [.number (.int 69), .number requestId, .dict options]
        (.interrupt ⟨requestId, Value.strippedEntries options⟩)

end Message

open Message (PayloadForm Grammar)

/-! ## Shapes and forms -/

/-- A list that is accepted as positional arguments is a payload. -/
theorem Message.PayloadForm.of_list {args : Value} {as : List Value}
    (hargs : Schema.list args = .ok as) : PayloadForm [args] (.given as) .absent := by
  obtain ⟨items, rfl, hitems, rfl⟩ := Schema.list_eq_ok_iff.1 hargs
  exact .args hitems

/-- A list and a dictionary that are accepted as arguments are a payload. -/
theorem Message.PayloadForm.of_dict {args kwargs : Value} {as : List Value} {ks : Dict}
    (hargs : Schema.list args = .ok as) (hkwargs : Schema.dict kwargs = .ok ks) :
    PayloadForm [args, kwargs] (.given as) (.given ks) := by
  obtain ⟨items, rfl, hitems, rfl⟩ := Schema.list_eq_ok_iff.1 hargs
  obtain ⟨entries, rfl, hentries, rfl⟩ := Schema.dict_eq_ok_iff.1 hkwargs
  exact .kwargs hitems hentries

namespace Shape

/-- The head of an error followed by a payload is an error of the grammar. -/
theorem ErrorHead.grammar {type id details error : Value} {t : MessageKind} {n : Number} {d : Dict}
    {e : String} (head : ErrorHead type id details error t n d e) {payload : List Value}
    {args : Field (List Value)} {kwargs : Field Dict} (hpayload : PayloadForm payload args kwargs) :
    Grammar ([MessageKind.error.toValue, type, id, details, error] ++ payload)
      (.error ⟨t, n, d, e, args.toOption.getD [], kwargs.toOption.getD []⟩) := by
  obtain ⟨htype, hid, hdetails, herror⟩ := head
  obtain rfl := Schema.messageKind_eq_ok_iff.1 htype
  obtain ⟨rfl, hn⟩ := Schema.id_eq_ok_iff.1 hid
  obtain ⟨entries, rfl, hentries, rfl⟩ := Schema.dict_eq_ok_iff.1 hdetails
  obtain ⟨rfl, huri⟩ := Schema.uri_eq_ok_iff.1 herror
  exact .error hn hentries huri hpayload

/-- The head of an event followed by a payload is an event of the grammar. -/
theorem EventHead.grammar {subscription publication details : Value} {s p : Number} {d : Dict}
    (head : EventHead subscription publication details s p d) {payload : List Value}
    {args : Field (List Value)} {kwargs : Field Dict} (hpayload : PayloadForm payload args kwargs) :
    Grammar ([MessageKind.event.toValue, subscription, publication, details] ++ payload)
      (.event ⟨s, p, d, args, kwargs⟩) := by
  obtain ⟨hsubscription, hpublication, hdetails⟩ := head
  obtain ⟨rfl, hs⟩ := Schema.id_eq_ok_iff.1 hsubscription
  obtain ⟨rfl, hp⟩ := Schema.id_eq_ok_iff.1 hpublication
  obtain ⟨entries, rfl, hentries, rfl⟩ := Schema.dict_eq_ok_iff.1 hdetails
  exact .event hs hp hentries hpayload

/-- A list that a shape describes has the form of its kind. -/
theorem Reads.grammar {s : Shape} {items : List Value} {m : Message} (h : s.Reads items m) :
    Grammar items m := by
  cases h with
  | abort hd hr =>
    obtain ⟨d, rfl, hdetails, rfl⟩ := Schema.dict_eq_ok_iff.1 hd
    obtain ⟨rfl, hreason⟩ := Schema.uri_eq_ok_iff.1 hr
    exact .abort hdetails hreason
  | error head => exact head.grammar .none
  | errorArgs head hargs => exact head.grammar (.of_list hargs)
  | errorKwargs head hargs hkwargs => exact head.grammar (.of_dict hargs hkwargs)
  | event head => exact head.grammar .none
  | eventArgs head hargs => exact head.grammar (.of_list hargs)
  | eventKwargs head hargs hkwargs => exact head.grammar (.of_dict hargs hkwargs)
  | interrupt hid ho =>
    obtain ⟨rfl, hn⟩ := Schema.id_eq_ok_iff.1 hid
    obtain ⟨o, rfl, hoptions, rfl⟩ := Schema.dict_eq_ok_iff.1 ho
    exact .interrupt hn hoptions

end Shape

namespace Message

/-- A list of one of the four forms is described by some shape. -/
theorem Grammar.reads {items : List Value} {m : Message} (h : Grammar items m) :
    ∃ s : Shape, s.Reads items m := by
  cases h with
  | abort hdetails hreason =>
    have huri := Schema.uri_eq_ok_iff.2 ⟨rfl, hreason⟩
    exact ⟨.abort, .abort (Schema.dict_of_isWire hdetails) huri⟩
  | @error t n d e _ _ _ hid hdetails herror hpayload =>
    have head : Shape.ErrorHead (.number (.int t.code)) (.number n) (.dict d) (.string e) t n
        (Value.strippedEntries d) e :=
      ⟨Schema.messageKind_eq_ok_iff.2 rfl, Schema.id_eq_ok_iff.2 ⟨rfl, hid⟩,
        Schema.dict_of_isWire hdetails, Schema.uri_eq_ok_iff.2 ⟨rfl, herror⟩⟩
    -- The form of the payload decides the length, and the length decides the shape.
    cases hpayload with
    | none => exact ⟨.error, .error head⟩
    | args hitems => exact ⟨.errorArgs, .errorArgs head (Schema.list_of_isWire hitems)⟩
    | kwargs hitems hentries =>
      exact ⟨.errorKwargs, .errorKwargs head (Schema.list_of_isWire hitems)
        (Schema.dict_of_isWire hentries)⟩
  | @event s p d _ _ _ hs hp hdetails hpayload =>
    have head : Shape.EventHead (.number s) (.number p) (.dict d) s p (Value.strippedEntries d) :=
      ⟨Schema.id_eq_ok_iff.2 ⟨rfl, hs⟩, Schema.id_eq_ok_iff.2 ⟨rfl, hp⟩,
        Schema.dict_of_isWire hdetails⟩
    cases hpayload with
    | none => exact ⟨.event, .event head⟩
    | args hitems => exact ⟨.eventArgs, .eventArgs head (Schema.list_of_isWire hitems)⟩
    | kwargs hitems hentries =>
      exact ⟨.eventKwargs, .eventKwargs head (Schema.list_of_isWire hitems)
        (Schema.dict_of_isWire hentries)⟩
  | interrupt hid hoptions =>
    have hread := Schema.id_eq_ok_iff.2 ⟨rfl, hid⟩
    exact ⟨.interrupt, .interrupt hread (Schema.dict_of_isWire hoptions)⟩

/-- A value is accepted as a message exactly when it is a list of the grammar. -/
theorem message_eq_ok_iff_grammar {v : Value} {m : Message} :
    Schema.message v = .ok m ↔ ∃ items, v = .list items ∧ Grammar items m := by
  rw [Schema.message_eq_ok_iff]
  constructor
  · rintro ⟨items, rfl, s, hreads⟩
    exact ⟨items, rfl, hreads.grammar⟩
  · rintro ⟨items, rfl, hgrammar⟩
    exact ⟨items, rfl, hgrammar.reads⟩

/-- A list of the grammar begins with the code of the kind of the message. -/
theorem Grammar.head {items : List Value} {m : Message} (h : Grammar items m) :
    ∃ n rest, items = .number n :: rest ∧ MessageKind.ofCode? n = some m.kind := by
  cases h with
  | abort | error | event | interrupt => exact ⟨_, _, rfl, rfl⟩

end Message

/-! ## The order of alternatives -/

/-- The message of a list of a shape has the kind of the shape. -/
theorem Shape.Reads.kind_eq {s : Shape} {items : List Value} {m : Message} (h : s.Reads items m) :
    m.kind = s.kind := by
  cases h <;> rfl

/-- The order in which shapes are tried does not matter. -/
theorem Schema.oneOf_eq_of_perm {shapes shapes' : List Shape} (h : shapes.Perm shapes')
    (v : Value) : Schema.oneOf shapes v = Schema.oneOf shapes' v := by
  have hfound : shapes.findSome? (·.read? v) = shapes'.findSome? (·.read? v) := by
    refine Option.ext fun m => ?_
    rw [Shape.findSome?_read?_eq_some_iff, Shape.findSome?_read?_eq_some_iff]
    exact exists_congr fun s => and_congr_left' h.mem_iff
  rw [Schema.oneOf, Schema.oneOf, hfound]

/-- Reading messages is unambiguous and accepts exactly the grammar. At most one shape reads a
value, and one that does fixes its length and the kind of its message; so the shapes may be tried in
any order. A value is accepted exactly when it is a list of the grammar, and read as the message
that the grammar gives it, whose kind is that of the code at the head of the list. -/
theorem Schema.message_unambiguous (v : Value) :
    (∀ s t : Shape, (s.read? v).isSome → (t.read? v).isSome → s = t) ∧
      (∀ (s : Shape) (m : Message), s.read? v = some m →
        m.kind = s.kind ∧ ∃ items, v = .list items ∧ items.length = s.arity) ∧
      (∀ shapes shapes' : List Shape, shapes.Perm shapes' →
        Schema.oneOf shapes v = Schema.oneOf shapes' v) ∧
      (∀ m, Schema.message v = .ok m ↔ ∃ items, v = .list items ∧ Grammar items m) ∧
      ∀ m, Schema.message v = .ok m →
        ∃ n rest, v = .list (.number n :: rest) ∧ MessageKind.ofCode? n = some m.kind := by
  refine ⟨fun s t hs ht => ?_, fun s m h => ?_, fun shapes shapes' h => Schema.oneOf_eq_of_perm h v,
    fun m => Message.message_eq_ok_iff_grammar, fun m h => ?_⟩
  · obtain ⟨m, hm⟩ := Option.isSome_iff_exists.1 hs
    obtain ⟨n, hn⟩ := Option.isSome_iff_exists.1 ht
    exact Shape.eq_of_read? hm hn
  · obtain ⟨items, rfl, hreads⟩ := Shape.read?_eq_some_iff.1 h
    obtain ⟨rest, rfl, hlength⟩ := hreads.form
    exact ⟨hreads.kind_eq, _, rfl, hlength⟩
  · obtain ⟨items, rfl, hgrammar⟩ := Message.message_eq_ok_iff_grammar.1 h
    obtain ⟨n, rest, rfl, hkind⟩ := hgrammar.head
    exact ⟨n, rest, rfl, hkind⟩

end Wamp
