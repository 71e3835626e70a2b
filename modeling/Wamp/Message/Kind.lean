import Wamp.Number.Basic

/-!
# Message kinds

Every message begins with the code of its kind.
-/

namespace Wamp

/-- The kinds of messages. -/
inductive MessageKind where
  | hello | welcome | abort | challenge | authenticate | goodbye | error | publish | published
  | subscribe | subscribed | unsubscribe | unsubscribed | event | call | cancel | result | register
  | registered | unregister | unregistered | invocation | interrupt | yield
  deriving DecidableEq

namespace MessageKind

/-- The kinds by ascending code. -/
def all : List MessageKind :=
  [hello, welcome, abort, challenge, authenticate, goodbye, error, publish, published, subscribe,
    subscribed, unsubscribe, unsubscribed, event, call, cancel, result, register, registered,
    unregister, unregistered, invocation, interrupt, yield]

/-- The code of a kind. -/
def code : MessageKind → Nat
  | hello => 1
  | welcome => 2
  | abort => 3
  | challenge => 4
  | authenticate => 5
  | goodbye => 6
  | error => 8
  | publish => 16
  | published => 17
  | subscribe => 32
  | subscribed => 33
  | unsubscribe => 34
  | unsubscribed => 35
  | event => 36
  | call => 48
  | cancel => 49
  | result => 50
  | register => 64
  | registered => 65
  | unregister => 66
  | unregistered => 67
  | invocation => 68
  | interrupt => 69
  | yield => 70

/-- The name of a kind. -/
def name : MessageKind → String
  | hello => "HELLO"
  | welcome => "WELCOME"
  | abort => "ABORT"
  | challenge => "CHALLENGE"
  | authenticate => "AUTHENTICATE"
  | goodbye => "GOODBYE"
  | error => "ERROR"
  | publish => "PUBLISH"
  | published => "PUBLISHED"
  | subscribe => "SUBSCRIBE"
  | subscribed => "SUBSCRIBED"
  | unsubscribe => "UNSUBSCRIBE"
  | unsubscribed => "UNSUBSCRIBED"
  | event => "EVENT"
  | call => "CALL"
  | cancel => "CANCEL"
  | result => "RESULT"
  | register => "REGISTER"
  | registered => "REGISTERED"
  | unregister => "UNREGISTER"
  | unregistered => "UNREGISTERED"
  | invocation => "INVOCATION"
  | interrupt => "INTERRUPT"
  | yield => "YIELD"

/-- The kind with a code. -/
def ofCode? (n : Number) : Option MessageKind := all.find? fun kind => n = .int kind.code

/-- The code of a kind is read back as that kind. -/
theorem ofCode?_code (kind : MessageKind) : ofCode? (.int kind.code) = some kind := by
  cases kind <;> rfl

end MessageKind

end Wamp
