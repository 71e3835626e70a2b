import Wamp.Event
import Wamp.Proofs.Message.Canonical

/-!
# Events as subscribers see them

The wire form of an event does not tell an empty payload from an absent one, and may put an empty
list where there was none. None of this reaches a subscriber, who is shown empty arguments wherever
there are none: the wire form of an event and what a subscriber sees of it determine each other
(`EventMessage.wire_eq_iff_sameContent`). Reading an event back from its wire form is therefore
nothing that a subscriber could notice, whatever reading has changed in the message
(`EventMessage.sameContent_of_parse`).
-/

namespace Wamp

/-- What a subscriber sees of two events is the same, the topics of the subscriptions apart. -/
structure SubscriptionEvent.SameContent {M M' : Type → Type} (e : SubscriptionEvent M)
    (e' : SubscriptionEvent M') : Prop where
  publicationId : e.publicationId = e'.publicationId
  subscriptionId : e.subscriptionId = e'.subscriptionId
  args : e.args = e'.args
  kwargs : e.kwargs = e'.kwargs
  details : e.details = e'.details

/-- A payload tells which arguments there are, and nothing else. -/
theorem payload_eq_iff {args args' : Option (List Value)} {kwargs kwargs' : Option Dict} :
    payload args kwargs = payload args' kwargs' ↔
      args.getD [] = args'.getD [] ∧ kwargs.getD [] = kwargs'.getD [] := by
  unfold payload
  generalize args.getD [] = items
  generalize args'.getD [] = items'
  generalize kwargs.getD [] = entries
  generalize kwargs'.getD [] = entries'
  constructor
  · intro h
    -- The length of a payload tells which of its arguments are empty.
    by_cases hk : entries = [] <;> by_cases hk' : entries' = [] <;>
      by_cases ha : items = [] <;> by_cases ha' : items' = [] <;> simp_all
  · rintro ⟨rfl, rfl⟩
    rfl

namespace EventMessage

/-- Two events have the same wire form exactly if no subscriber can tell them apart. -/
theorem wire_eq_iff_sameContent {M M' : Type → Type} (client : Client M) (client' : Client M')
    (topic topic' : String) (m n : EventMessage) :
    m.wire = n.wire ↔
      SubscriptionEvent.SameContent ⟨client, m, topic⟩ ⟨client', n, topic'⟩ := by
  have hparts : m.wire = n.wire ↔ m.subscriptionId = n.subscriptionId ∧
      m.publicationId = n.publicationId ∧ m.details = n.details ∧
      payload m.args.toOption m.kwargs.toOption = payload n.args.toOption n.kwargs.toOption := by
    simp [wire]
  rw [hparts, payload_eq_iff]
  constructor
  · rintro ⟨hs, hp, hd, ha, hk⟩
    exact ⟨hp, hs, ha, hk, hd⟩
  · rintro ⟨hp, hs, ha, hk, hd⟩
    exact ⟨hs, hp, hd, ha, hk⟩

/-- The wire form of a valid event is read as an event, and a subscriber is shown the same of both.
The wire forms of two events are the same exactly if a subscriber is shown the same of them,
whatever the clients and the topics are that they are delivered for. -/
theorem sameContent_of_parse {m : EventMessage} (h : m.Valid) :
    ∃ m', Message.parse (.list (Message.event m).wire) = .ok (.event m') ∧
      (∀ {M : Type → Type} (client : Client M) (topic : String),
        (SubscriptionEvent.mk client m' topic).topic = (SubscriptionEvent.mk client m topic).topic ∧
          SubscriptionEvent.SameContent ⟨client, m', topic⟩ ⟨client, m, topic⟩) ∧
      ∀ {M M' : Type → Type} (client : Client M) (client' : Client M') (topic topic' : String)
        (n : EventMessage), (Message.event m).wire = (Message.event n).wire ↔
          SubscriptionEvent.SameContent ⟨client, m, topic⟩ ⟨client', n, topic'⟩ := by
  obtain ⟨s, hreads⟩ := m.reads_wire h
  refine ⟨m.normalized, ?parsed, fun client topic => ⟨rfl, ?seen⟩,
    fun client client' topic topic' n => wire_eq_iff_sameContent client client' topic topic' m n⟩
  case parsed => exact Message.parse_eq_ok_iff.2 (Schema.message_eq_ok_iff.2 ⟨_, rfl, s, hreads⟩)
  -- What is read back is written like the event, so a subscriber sees no difference.
  case seen =>
    have hwire := Message.wire_normalized_event m
    exact (wire_eq_iff_sameContent client client topic topic m.normalized m).1 hwire

/-- An event without positional arguments is read back with an empty list of them, which is shown to
a subscriber like their absence; an event with one positional argument more is written in another
way. -/
theorem sameContent_of_parse_undefined :
    EventMessage.Valid ⟨.int 7, .negZero, [("k", .null)], .undefined,
        .given [("0", .list [.string "x"])]⟩ ∧
      Message.parse (.list (Message.event ⟨.int 7, .negZero, [("k", .null)], .undefined,
          .given [("0", .list [.string "x"])]⟩).wire) =
        .ok (.event ⟨.int 7, .negZero, [("k", .null)], .given [],
          .given [("0", .list [.string "x"])]⟩) ∧
      (∀ {M : Type → Type} (client : Client M) (topic : String),
        SubscriptionEvent.SameContent
          ⟨client, ⟨.int 7, .negZero, [("k", .null)], .given [],
            .given [("0", .list [.string "x"])]⟩, topic⟩
          ⟨client, ⟨.int 7, .negZero, [("k", .null)], .undefined,
            .given [("0", .list [.string "x"])]⟩, topic⟩) ∧
      (Message.event ⟨.int 7, .negZero, [("k", .null)], .undefined,
          .given [("0", .list [.string "x"])]⟩).wire ≠
        (Message.event ⟨.int 7, .negZero, [("k", .null)], .given [.null],
          .given [("0", .list [.string "x"])]⟩).wire := by
  have hvalid : EventMessage.Valid ⟨.int 7, .negZero, [("k", .null)], .undefined,
      .given [("0", .list [.string "x"])]⟩ := by
    refine ⟨⟨7, rfl, by decide, by decide⟩, ⟨0, rfl, by decide, by decide⟩, ?_, nofun, ?_⟩
    · simp [Value.Portable, Primitive.isWire, reservedKey]
    · rintro kwargs ⟨⟩
      simp [Value.Portable, Primitive.isWire, reservedKey]
  obtain ⟨m', hparse, hseen, hwire⟩ := sameContent_of_parse hvalid
  obtain rfl : (⟨.int 7, .negZero, [("k", .null)], .given [],
      .given [("0", .list [.string "x"])]⟩ : EventMessage) = m' := by cases hparse; rfl
  refine ⟨hvalid, hparse, fun client topic => (hseen client topic).2, fun hsame => ?_⟩
  -- A positional argument more is seen.
  let client : Client Id := ⟨fun _ => ()⟩
  cases ((hwire client client "com.example.topic" "com.example.topic" _).1 hsame).args

end EventMessage

end Wamp
