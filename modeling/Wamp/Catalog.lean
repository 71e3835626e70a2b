import Wamp.Uri.Known

/-!
# The catalog of predefined errors

What is known about each predefined URI without any registration: the area of the protocol that it
belongs to, a title and a description.
-/

namespace Wamp

/-- An area of the protocol. -/
inductive ErrorCategory where
  | session | rpc | pubsub | auth | generic
  deriving DecidableEq

/-- The word for an area. -/
def ErrorCategory.word : ErrorCategory → String
  | .session => "session"
  | .rpc => "rpc"
  | .pubsub => "pubsub"
  | .auth => "auth"
  | .generic => "generic"

/-- The areas. -/
def ErrorCategory.all : List ErrorCategory := [.session, .rpc, .pubsub, .auth, .generic]

/-- What is known about a predefined URI. -/
structure CatalogEntry where
  uri : KnownUri
  category : ErrorCategory
  title : String
  description : String

namespace Catalog

/-- The entries, area by area. -/
def entries : List CatalogEntry :=
  [⟨.invalidUri, .generic, "Invalid URI", "A URI given in a request failed validation"⟩,
    ⟨.invalidArgument, .generic, "Invalid argument",
      "The arguments given to a procedure or topic were rejected"⟩,
    ⟨.protocolViolation, .generic, "Protocol violation",
      "A peer sent a message that violates the protocol"⟩,
    ⟨.optionNotAllowed, .generic, "Option not allowed",
      "The router rejected an option given in a request"⟩,
    ⟨.networkFailure, .generic, "Network failure",
      "The request could not be completed because of a network failure"⟩,
    ⟨.runtimeError, .generic, "Runtime error",
      "A procedure failed with an error that has no URI of its own"⟩,
    ⟨.systemShutdown, .session, "System shutdown", "The peer is shutting down"⟩,
    ⟨.closeRealm, .session, "Close realm", "The peer wants to leave the realm"⟩,
    ⟨.goodbyeAndOut, .session, "Goodbye and out", "Acknowledgement of a GOODBYE"⟩,
    ⟨.noSuchRealm, .session, "No such realm", "The realm requested in HELLO does not exist"⟩,
    ⟨.noSuchSession, .session, "No such session",
      "The session referenced in a request does not exist"⟩,
    ⟨.notAuthorized, .auth, "Not authorized",
      "The session is not authorized to perform the action"⟩,
    ⟨.authorizationFailed, .auth, "Authorization failed",
      "The router could not determine whether the action is authorized"⟩,
    ⟨.authenticationFailed, .auth, "Authentication failed",
      "The credentials presented during the join were rejected"⟩,
    ⟨.noSuchRole, .auth, "No such role", "The role requested in HELLO does not exist"⟩,
    ⟨.noSuchProcedure, .rpc, "No such procedure",
      "No callee is registered for the called procedure"⟩,
    ⟨.procedureAlreadyExists, .rpc, "Procedure already exists",
      "The procedure is already registered by another callee"⟩,
    ⟨.noSuchRegistration, .rpc, "No such registration",
      "The registration to remove does not exist"⟩,
    ⟨.canceled, .rpc, "Canceled", "The call was canceled by the caller"⟩,
    ⟨.timeout, .rpc, "Timeout", "The call did not complete within its timeout"⟩,
    ⟨.noEligibleCallee, .rpc, "No eligible callee",
      "Callee exclusion or eligibility options left no callee"⟩,
    ⟨.optionDisallowedDiscloseMe, .rpc, "Disclose me disallowed",
      "The router refused to disclose the caller identity"⟩,
    ⟨.noSuchSubscription, .pubsub, "No such subscription",
      "The subscription to remove does not exist"⟩]

/-- The entry of a URI, if it is predefined. -/
def find? (uri : String) : Option CatalogEntry := entries.find? (·.uri.uri = uri)

/-- Whether a URI is predefined. -/
def isWellKnown (uri : String) : Bool := (find? uri).isSome

/-- The entries of an area. -/
def ofCategory (category : ErrorCategory) : List CatalogEntry :=
  entries.filter (·.category = category)

end Catalog

end Wamp
