import Wamp.Message.Basic

/-!
# Subscription events

An event as a subscriber sees it: the message, the topic of the subscription and the client that
received it, through which the subscription can be ended. Whether the message left out an empty
payload does not show.
-/

namespace Wamp

/-- The part of a client that an event needs, where `m` is what calling a client takes. -/
structure Client (m : Type → Type) where
  /-- Ends the subscription of a topic. -/
  unsubscribe : String → m Unit

/-- An event delivered to a subscriber. -/
structure SubscriptionEvent (m : Type → Type) where
  client : Client m
  message : EventMessage
  /-- The topic that the subscription was made for. -/
  topic : String

namespace SubscriptionEvent

variable {m : Type → Type}

/-- The id of the publication. -/
def publicationId (e : SubscriptionEvent m) : Number := e.message.publicationId

/-- The id of the subscription. -/
def subscriptionId (e : SubscriptionEvent m) : Number := e.message.subscriptionId

/-- The positional arguments, none if the message has none. -/
def args (e : SubscriptionEvent m) : List Value := e.message.args.toOption.getD []

/-- The keyword arguments, none if the message has none. -/
def kwargs (e : SubscriptionEvent m) : Dict := e.message.kwargs.toOption.getD []

/-- The details of the publication. -/
def details (e : SubscriptionEvent m) : Dict := e.message.details

/-- Ends the subscription that the event was delivered for. -/
def unsubscribe (e : SubscriptionEvent m) : m Unit := e.client.unsubscribe e.topic

end SubscriptionEvent

end Wamp
