import Wamp.Message.Shape
import Wamp.Proofs.Schema

/-!
# The shapes of messages are disjoint

`Shape.Reads` lists what each shape consists of and what message it stands for, and a shape reads
exactly that (`Shape.read?_eq_some_iff`). Every shape fixes the code at the head of a list and the
number of its elements (`Shape.Reads.form`), and no two shapes fix the same pair, so a value has at
most one shape (`Shape.eq_of_read?`). The order in which the shapes are tried therefore never
matters: a value is a message exactly when some shape describes it (`Schema.message_eq_ok_iff`).
-/

namespace Wamp

namespace Shape

/-- The kind of the messages of a shape. -/
def kind : Shape → MessageKind
  | .abort => .abort
  | .error | .errorArgs | .errorKwargs => .error
  | .event | .eventArgs | .eventKwargs => .event
  | .interrupt => .interrupt

/-- The number of elements of a list of a shape. -/
def arity : Shape → Nat
  | .abort | .interrupt => 3
  | .event => 4
  | .error | .eventArgs => 5
  | .errorArgs | .eventKwargs => 6
  | .errorKwargs => 7

/-- A shape is known by its kind and its length. -/
theorem eq_of_kind_of_arity {s t : Shape} (hkind : s.kind = t.kind) (harity : s.arity = t.arity) :
    s = t := by
  cases s <;> cases t <;> simp_all [kind, arity]

/-! ## What the lists of a shape hold -/

/-- The parts that every error has, and what they are read as. -/
structure ErrorHead (type id details error : Value) (t : MessageKind) (n : Number) (d : Dict)
    (e : String) : Prop where
  type : Schema.messageKind type = .ok t
  id : Schema.id id = .ok n
  details : Schema.dict details = .ok d
  error : Schema.uri error = .ok e

/-- The parts that every event has, and what they are read as. -/
structure EventHead (subscription publication details : Value) (s p : Number) (d : Dict) :
    Prop where
  subscription : Schema.id subscription = .ok s
  publication : Schema.id publication = .ok p
  details : Schema.dict details = .ok d

/-- The lists of each shape, and the message that such a list is read as. -/
inductive Reads : Shape → List Value → Message → Prop
  | abort {details reason : Value} {d : Dict} {r : String} (hd : Schema.dict details = .ok d)
      (hr : Schema.uri reason = .ok r) :
      Reads .abort [MessageKind.abort.toValue, details, reason] (.abort ⟨d, r⟩)
  | error {type id details error : Value} {t : MessageKind} {n : Number} {d : Dict} {e : String}
      (head : ErrorHead type id details error t n d e) :
      Reads .error [MessageKind.error.toValue, type, id, details, error]
        (.error ⟨t, n, d, e, [], []⟩)
  | errorArgs {type id details error args : Value} {t : MessageKind} {n : Number} {d : Dict}
      {e : String} {as : List Value} (head : ErrorHead type id details error t n d e)
      (hargs : Schema.list args = .ok as) :
      Reads .errorArgs [MessageKind.error.toValue, type, id, details, error, args]
        (.error ⟨t, n, d, e, as, []⟩)
  | errorKwargs {type id details error args kwargs : Value} {t : MessageKind} {n : Number}
      {d : Dict} {e : String} {as : List Value} {ks : Dict}
      (head : ErrorHead type id details error t n d e) (hargs : Schema.list args = .ok as)
      (hkwargs : Schema.dict kwargs = .ok ks) :
      Reads .errorKwargs [MessageKind.error.toValue, type, id, details, error, args, kwargs]
        (.error ⟨t, n, d, e, as, ks⟩)
  | event {subscription publication details : Value} {s p : Number} {d : Dict}
      (head : EventHead subscription publication details s p d) :
      Reads .event [MessageKind.event.toValue, subscription, publication, details]
        (.event ⟨s, p, d, .absent, .absent⟩)
  | eventArgs {subscription publication details args : Value} {s p : Number} {d : Dict}
      {as : List Value} (head : EventHead subscription publication details s p d)
      (hargs : Schema.list args = .ok as) :
      Reads .eventArgs [MessageKind.event.toValue, subscription, publication, details, args]
        (.event ⟨s, p, d, .given as, .absent⟩)
  | eventKwargs {subscription publication details args kwargs : Value} {s p : Number} {d : Dict}
      {as : List Value} {ks : Dict} (head : EventHead subscription publication details s p d)
      (hargs : Schema.list args = .ok as) (hkwargs : Schema.dict kwargs = .ok ks) :
      Reads .eventKwargs
        [MessageKind.event.toValue, subscription, publication, details, args, kwargs]
        (.event ⟨s, p, d, .given as, .given ks⟩)
  | interrupt {id options : Value} {n : Number} {o : Dict} (hid : Schema.id id = .ok n)
      (ho : Schema.dict options = .ok o) :
      Reads .interrupt [MessageKind.interrupt.toValue, id, options] (.interrupt ⟨n, o⟩)

/-- The head of an error is read if each of its parts is. -/
theorem errorHead?_eq_some_iff {code type id details error : Value} {args : List Value}
    {kwargs : Dict} {m : Message} :
    errorHead? code type id details error args kwargs = some m ↔
      code = MessageKind.error.toValue ∧ ∃ t n d e, ErrorHead type id details error t n d e ∧
        m = .error ⟨t, n, d, e, args, kwargs⟩ := by
  simp only [errorHead?, Option.bind_eq_bind, Option.bind_eq_some_iff, Option.pure_def,
    Checked.result?_eq_some_iff, Schema.literal_eq_ok_iff, Option.some.injEq, MessageKind.toValue]
  constructor
  · rintro ⟨-, hcode, t, ht, n, hn, d, hd, e, he, rfl⟩
    exact ⟨hcode, t, n, d, e, ⟨ht, hn, hd, he⟩, rfl⟩
  · rintro ⟨hcode, t, n, d, e, ⟨ht, hn, hd, he⟩, rfl⟩
    exact ⟨(), hcode, t, ht, n, hn, d, hd, e, he, rfl⟩

/-- The head of an event is read if each of its parts is. -/
theorem eventHead?_eq_some_iff {code subscription publication details : Value}
    {args : Field (List Value)} {kwargs : Field Dict} {m : Message} :
    eventHead? code subscription publication details args kwargs = some m ↔
      code = MessageKind.event.toValue ∧
        ∃ s p d, EventHead subscription publication details s p d ∧
          m = .event ⟨s, p, d, args, kwargs⟩ := by
  simp only [eventHead?, Option.bind_eq_bind, Option.bind_eq_some_iff, Option.pure_def,
    Checked.result?_eq_some_iff, Schema.literal_eq_ok_iff, Option.some.injEq, MessageKind.toValue]
  constructor
  · rintro ⟨-, hcode, s, hs, p, hp, d, hd, rfl⟩
    exact ⟨hcode, s, p, d, ⟨hs, hp, hd⟩, rfl⟩
  · rintro ⟨hcode, s, p, d, ⟨hs, hp, hd⟩, rfl⟩
    exact ⟨(), hcode, s, hs, p, hp, d, hd, rfl⟩

/-- Parts that are those of an error are read as its head. -/
theorem ErrorHead.read {type id details error : Value} {t : MessageKind} {n : Number} {d : Dict}
    {e : String} (h : ErrorHead type id details error t n d e) (args : List Value) (kwargs : Dict) :
    errorHead? MessageKind.error.toValue type id details error args kwargs =
      some (.error ⟨t, n, d, e, args, kwargs⟩) :=
  errorHead?_eq_some_iff.2 ⟨rfl, t, n, d, e, h, rfl⟩

/-- Parts that are those of an event are read as its head. -/
theorem EventHead.read {subscription publication details : Value} {s p : Number} {d : Dict}
    (h : EventHead subscription publication details s p d) (args : Field (List Value))
    (kwargs : Field Dict) :
    eventHead? MessageKind.event.toValue subscription publication details args kwargs =
      some (.event ⟨s, p, d, args, kwargs⟩) :=
  eventHead?_eq_some_iff.2 ⟨rfl, s, p, d, h, rfl⟩

/-- An abort is a list of its code, its details and its reason. -/
theorem abort_eq_ok_iff {v : Value} {m : AbortMessage} :
    Schema.abort v = .ok m ↔
      ∃ details reason, v = .list [MessageKind.abort.toValue, details, reason] ∧
        Schema.dict details = .ok m.details ∧ Schema.uri reason = .ok m.reason := by
  rw [Schema.abort, map_eq_ok_iff]
  constructor
  · rintro ⟨⟨u, d, r⟩, htriple, rfl⟩
    obtain ⟨code, details, reason, rfl, hcode, hd, hr⟩ := Schema.triple_eq_ok_iff.1 htriple
    obtain rfl := Schema.literal_eq_ok_iff.1 hcode
    exact ⟨details, reason, rfl, hd, hr⟩
  · rintro ⟨details, reason, rfl, hd, hr⟩
    refine ⟨((), m.details, m.reason), Schema.triple_eq_ok_iff.2 ?_, rfl⟩
    exact ⟨_, details, reason, rfl, Schema.literal_eq_ok_iff.2 rfl, hd, hr⟩

/-- An interrupt is a list of its code, the id of the request and its options. -/
theorem interrupt_eq_ok_iff {v : Value} {m : InterruptMessage} :
    Schema.interrupt v = .ok m ↔
      ∃ id options, v = .list [MessageKind.interrupt.toValue, id, options] ∧
        Schema.id id = .ok m.requestId ∧ Schema.dict options = .ok m.options := by
  rw [Schema.interrupt, map_eq_ok_iff]
  constructor
  · rintro ⟨⟨u, n, o⟩, htriple, rfl⟩
    obtain ⟨code, id, options, rfl, hcode, hn, ho⟩ := Schema.triple_eq_ok_iff.1 htriple
    obtain rfl := Schema.literal_eq_ok_iff.1 hcode
    exact ⟨id, options, rfl, hn, ho⟩
  · rintro ⟨id, options, rfl, hn, ho⟩
    refine ⟨((), m.requestId, m.options), Schema.triple_eq_ok_iff.2 ?_, rfl⟩
    exact ⟨_, id, options, rfl, Schema.literal_eq_ok_iff.2 rfl, hn, ho⟩

/-- A value that is read by a shape is a list that the shape describes. -/
theorem reads_of_read? {s : Shape} {v : Value} {m : Message} (h : s.read? v = some m) :
    ∃ items, v = .list items ∧ s.Reads items m := by
  -- One case for each shape with a list of its length, and one for all other values.
  fun_cases Shape.read? s v
  case case1 =>
    obtain ⟨m, habort, rfl⟩ := Option.map_eq_some_iff.1 h
    obtain ⟨details, reason, rfl, hd, hr⟩ :=
      abort_eq_ok_iff.1 (Checked.result?_eq_some_iff.1 habort)
    exact ⟨_, rfl, .abort hd hr⟩
  case case2 c t i d e =>
    obtain ⟨rfl, t', n, d', e', head, rfl⟩ := errorHead?_eq_some_iff.1 h
    exact ⟨_, rfl, .error head⟩
  case case3 c t i d e a =>
    obtain ⟨args, hargs, hhead⟩ := Option.bind_eq_some_iff.1 h
    obtain ⟨rfl, t', n, d', e', head, rfl⟩ := errorHead?_eq_some_iff.1 hhead
    exact ⟨_, rfl, .errorArgs head (Checked.result?_eq_some_iff.1 hargs)⟩
  case case4 c t i d e a k =>
    obtain ⟨args, hargs, hrest⟩ := Option.bind_eq_some_iff.1 h
    obtain ⟨kwargs, hkwargs, hhead⟩ := Option.bind_eq_some_iff.1 hrest
    obtain ⟨rfl, t', n, d', e', head, rfl⟩ := errorHead?_eq_some_iff.1 hhead
    exact ⟨_, rfl, .errorKwargs head (Checked.result?_eq_some_iff.1 hargs)
      (Checked.result?_eq_some_iff.1 hkwargs)⟩
  case case5 c s p d =>
    obtain ⟨rfl, s', p', d', head, rfl⟩ := eventHead?_eq_some_iff.1 h
    exact ⟨_, rfl, .event head⟩
  case case6 c s p d a =>
    obtain ⟨args, hargs, hhead⟩ := Option.bind_eq_some_iff.1 h
    obtain ⟨rfl, s', p', d', head, rfl⟩ := eventHead?_eq_some_iff.1 hhead
    exact ⟨_, rfl, .eventArgs head (Checked.result?_eq_some_iff.1 hargs)⟩
  case case7 c s p d a k =>
    obtain ⟨args, hargs, hrest⟩ := Option.bind_eq_some_iff.1 h
    obtain ⟨kwargs, hkwargs, hhead⟩ := Option.bind_eq_some_iff.1 hrest
    obtain ⟨rfl, s', p', d', head, rfl⟩ := eventHead?_eq_some_iff.1 hhead
    exact ⟨_, rfl, .eventKwargs head (Checked.result?_eq_some_iff.1 hargs)
      (Checked.result?_eq_some_iff.1 hkwargs)⟩
  case case8 =>
    obtain ⟨m, hinterrupt, rfl⟩ := Option.map_eq_some_iff.1 h
    obtain ⟨id, options, rfl, hn, ho⟩ :=
      interrupt_eq_ok_iff.1 (Checked.result?_eq_some_iff.1 hinterrupt)
    exact ⟨_, rfl, .interrupt hn ho⟩
  case case9 =>
    rw [read?] at h
    · exact nomatch h
    all_goals assumption

/-- A list that a shape describes is read by it. -/
theorem Reads.read? {s : Shape} {items : List Value} {m : Message} (h : s.Reads items m) :
    s.read? (.list items) = some m := by
  cases h with
  | @abort details reason d r hd hr =>
    have habort :
        Schema.abort (.list [MessageKind.abort.toValue, details, reason]) = .ok ⟨d, r⟩ :=
      abort_eq_ok_iff.2 ⟨details, reason, rfl, hd, hr⟩
    exact Option.map_eq_some_iff.2 ⟨_, Checked.result?_eq_some_iff.2 habort, rfl⟩
  | error head => exact head.read [] []
  | errorArgs head hargs =>
    have hread := Checked.result?_eq_some_iff.2 hargs
    exact Option.bind_eq_some_iff.2 ⟨_, hread, head.read _ []⟩
  | errorKwargs head hargs hkwargs =>
    have hread := Checked.result?_eq_some_iff.2 hargs
    have hreadKwargs := Checked.result?_eq_some_iff.2 hkwargs
    exact Option.bind_eq_some_iff.2
      ⟨_, hread, Option.bind_eq_some_iff.2 ⟨_, hreadKwargs, head.read _ _⟩⟩
  | event head => exact head.read .absent .absent
  | eventArgs head hargs =>
    have hread := Checked.result?_eq_some_iff.2 hargs
    exact Option.bind_eq_some_iff.2 ⟨_, hread, head.read (.given _) .absent⟩
  | eventKwargs head hargs hkwargs =>
    have hread := Checked.result?_eq_some_iff.2 hargs
    have hreadKwargs := Checked.result?_eq_some_iff.2 hkwargs
    exact Option.bind_eq_some_iff.2
      ⟨_, hread, Option.bind_eq_some_iff.2 ⟨_, hreadKwargs, head.read (.given _) (.given _)⟩⟩
  | @interrupt id options n o hid ho =>
    have hinterrupt :
        Schema.interrupt (.list [MessageKind.interrupt.toValue, id, options]) = .ok ⟨n, o⟩ :=
      interrupt_eq_ok_iff.2 ⟨id, options, rfl, hid, ho⟩
    exact Option.map_eq_some_iff.2 ⟨_, Checked.result?_eq_some_iff.2 hinterrupt, rfl⟩

/-- A shape reads exactly the lists that it describes. -/
theorem read?_eq_some_iff {s : Shape} {v : Value} {m : Message} :
    s.read? v = some m ↔ ∃ items, v = .list items ∧ s.Reads items m := by
  constructor
  · exact reads_of_read?
  · rintro ⟨items, rfl, h⟩
    exact h.read?

/-! ## Only what may travel is read -/

/-- The code of a kind may travel. -/
theorem isWire_toValue (k : MessageKind) : k.toValue.IsWire := .number nofun

/-- The parts that every error has may travel. -/
theorem ErrorHead.isWire {type id details error : Value} {t : MessageKind} {n : Number} {d : Dict}
    {e : String} (h : ErrorHead type id details error t n d e) :
    type.IsWire ∧ id.IsWire ∧ details.IsWire ∧ error.IsWire :=
  ⟨Schema.isWire_of_messageKind h.type, Schema.isWire_of_id h.id, Schema.isWire_of_dict h.details,
    Schema.isWire_of_uri h.error⟩

/-- The parts that every event has may travel. -/
theorem EventHead.isWire {subscription publication details : Value} {s p : Number} {d : Dict}
    (h : EventHead subscription publication details s p d) :
    subscription.IsWire ∧ publication.IsWire ∧ details.IsWire :=
  ⟨Schema.isWire_of_id h.subscription, Schema.isWire_of_id h.publication,
    Schema.isWire_of_dict h.details⟩

/-- A list that a shape describes may travel. -/
theorem Reads.isWire {s : Shape} {items : List Value} {m : Message} (h : s.Reads items m) :
    (Value.list items).IsWire := by
  cases h with
  | abort hd hr => simp [isWire_toValue, Schema.isWire_of_dict hd, Schema.isWire_of_uri hr]
  | error head => simp [isWire_toValue, head.isWire]
  | errorArgs head hargs => simp [isWire_toValue, head.isWire, Schema.isWire_of_list hargs]
  | errorKwargs head hargs hkwargs =>
    simp [isWire_toValue, head.isWire, Schema.isWire_of_list hargs, Schema.isWire_of_dict hkwargs]
  | event head => simp [isWire_toValue, head.isWire]
  | eventArgs head hargs => simp [isWire_toValue, head.isWire, Schema.isWire_of_list hargs]
  | eventKwargs head hargs hkwargs =>
    simp [isWire_toValue, head.isWire, Schema.isWire_of_list hargs, Schema.isWire_of_dict hkwargs]
  | interrupt hid ho => simp [isWire_toValue, Schema.isWire_of_id hid, Schema.isWire_of_dict ho]

/-! ## Disjointness -/

/-- A list of a shape has the shape's length and begins with its code. -/
theorem Reads.form {s : Shape} {items : List Value} {m : Message} (h : s.Reads items m) :
    ∃ rest, items = s.kind.toValue :: rest ∧ rest.length + 1 = s.arity := by
  cases h <;> exact ⟨_, rfl, rfl⟩

/-- A kind is known by its code. -/
theorem toValue_inj {k l : MessageKind} (h : k.toValue = l.toValue) : k = l := by
  have hcode : Number.int k.code = Number.int l.code := by simpa [MessageKind.toValue] using h
  have hk := MessageKind.ofCode?_code k
  rw [hcode, MessageKind.ofCode?_code] at hk
  exact (Option.some.inj hk).symm

/-- A value has at most one shape. -/
theorem eq_of_read? {s t : Shape} {v : Value} {m n : Message} (hs : s.read? v = some m)
    (ht : t.read? v = some n) : s = t := by
  -- Both shapes describe the one list, which gives them the same code and the same length.
  obtain ⟨items, rfl, hsitems⟩ := read?_eq_some_iff.1 hs
  obtain ⟨items', heq, htitems⟩ := read?_eq_some_iff.1 ht
  obtain rfl := Value.list.inj heq
  obtain ⟨rest, rfl, hrest⟩ := hsitems.form
  obtain ⟨rest', heq, hrest'⟩ := htitems.form
  obtain ⟨hcode, rfl⟩ := List.cons.inj heq
  exact eq_of_kind_of_arity (toValue_inj hcode) (hrest.symm.trans hrest')

end Shape

/-- What is found among some shapes is what any of them reads. -/
theorem Shape.findSome?_read?_eq_some_iff {shapes : List Shape} {v : Value} {m : Message} :
    shapes.findSome? (·.read? v) = some m ↔ ∃ s ∈ shapes, s.read? v = some m := by
  constructor
  · exact List.exists_of_findSome?_eq_some
  · rintro ⟨s, hmem, hs⟩
    have hsome : (shapes.findSome? (·.read? v)).isSome :=
      List.findSome?_isSome_iff.2 ⟨s, hmem, Option.isSome_of_eq_some hs⟩
    obtain ⟨n, hn⟩ := Option.isSome_iff_exists.1 hsome
    -- The shape that is found first is the only one that reads the value.
    obtain ⟨t, -, ht⟩ := List.exists_of_findSome?_eq_some hn
    obtain rfl := Shape.eq_of_read? hs ht
    rw [hn, ← ht, hs]

/-- A message of some shapes is what any of them reads. -/
theorem Schema.oneOf_eq_ok_iff {shapes : List Shape} {v : Value} {m : Message} :
    Schema.oneOf shapes v = .ok m ↔ ∃ s ∈ shapes, s.read? v = some m := by
  rw [← Shape.findSome?_read?_eq_some_iff, Schema.oneOf]
  cases shapes.findSome? (·.read? v) with
  | some n => simp
  | none => simp [Checked.refuse_ne_ok]

/-- A value is accepted as a message exactly when it is a list that some shape describes. -/
theorem Schema.message_eq_ok_iff {v : Value} {m : Message} :
    Schema.message v = .ok m ↔ ∃ items, v = .list items ∧ ∃ s : Shape, s.Reads items m := by
  rw [Schema.message, Schema.oneOf_eq_ok_iff]
  constructor
  · rintro ⟨s, -, hs⟩
    obtain ⟨items, rfl, hreads⟩ := Shape.read?_eq_some_iff.1 hs
    exact ⟨items, rfl, s, hreads⟩
  · rintro ⟨items, rfl, s, hreads⟩
    have hmem : s ∈ Shape.all := by cases s <;> decide
    exact ⟨s, hmem, hreads.read?⟩

/-- Whatever is accepted as a message may travel. -/
theorem Schema.isWire_of_message {v : Value} {m : Message} (h : Schema.message v = .ok m) :
    v.IsWire := by
  obtain ⟨items, rfl, s, hreads⟩ := Schema.message_eq_ok_iff.1 h
  exact hreads.isWire

/-- A value is read as a message exactly when it is accepted as one. -/
theorem Message.parse_eq_ok_iff {v : Value} {m : Message} :
    Message.parse v = .ok m ↔ Schema.message v = .ok m := by
  rw [Message.parse]
  cases Schema.message v with
  | ok n => simp
  | error issues => simp

end Wamp
