/-!
# Predefined URIs

The error and close reason URIs of the basic and advanced profiles, with the names that programs
refer to them by.
-/

namespace Wamp

/-- A predefined URI. -/
inductive KnownUri where
  | invalidUri | noSuchProcedure | procedureAlreadyExists | noSuchRegistration | noSuchSubscription
  | invalidArgument | systemShutdown | closeRealm | goodbyeAndOut | protocolViolation
  | notAuthorized | authorizationFailed | authenticationFailed | noSuchRealm | noSuchRole
  | noSuchSession | canceled | timeout | optionNotAllowed | noEligibleCallee
  | optionDisallowedDiscloseMe | networkFailure | runtimeError
  deriving DecidableEq

namespace KnownUri

/-- The predefined URIs in the order of the profiles. -/
def all : List KnownUri :=
  [invalidUri, noSuchProcedure, procedureAlreadyExists, noSuchRegistration, noSuchSubscription,
    invalidArgument, systemShutdown, closeRealm, goodbyeAndOut, protocolViolation, notAuthorized,
    authorizationFailed, authenticationFailed, noSuchRealm, noSuchRole, noSuchSession, canceled,
    timeout, optionNotAllowed, noEligibleCallee, optionDisallowedDiscloseMe, networkFailure,
    runtimeError]

/-- The URI itself. -/
def uri : KnownUri → String
  | invalidUri => "wamp.error.invalid_uri"
  | noSuchProcedure => "wamp.error.no_such_procedure"
  | procedureAlreadyExists => "wamp.error.procedure_already_exists"
  | noSuchRegistration => "wamp.error.no_such_registration"
  | noSuchSubscription => "wamp.error.no_such_subscription"
  | invalidArgument => "wamp.error.invalid_argument"
  | systemShutdown => "wamp.close.system_shutdown"
  | closeRealm => "wamp.close.close_realm"
  | goodbyeAndOut => "wamp.close.goodbye_and_out"
  | protocolViolation => "wamp.error.protocol_violation"
  | notAuthorized => "wamp.error.not_authorized"
  | authorizationFailed => "wamp.error.authorization_failed"
  | authenticationFailed => "wamp.error.authentication_failed"
  | noSuchRealm => "wamp.error.no_such_realm"
  | noSuchRole => "wamp.error.no_such_role"
  | noSuchSession => "wamp.error.no_such_session"
  | canceled => "wamp.error.canceled"
  | timeout => "wamp.error.timeout"
  | optionNotAllowed => "wamp.error.option_not_allowed"
  | noEligibleCallee => "wamp.error.no_eligible_callee"
  | optionDisallowedDiscloseMe => "wamp.error.option_disallowed.disclose_me"
  | networkFailure => "wamp.error.network_failure"
  | runtimeError => "wamp.error.runtime_error"

/-- The name that programs refer to the URI by. -/
def name : KnownUri → String
  | invalidUri => "INVALID_URI"
  | noSuchProcedure => "NO_SUCH_PROCEDURE"
  | procedureAlreadyExists => "PROCEDURE_ALREADY_EXISTS"
  | noSuchRegistration => "NO_SUCH_REGISTRATION"
  | noSuchSubscription => "NO_SUCH_SUBSCRIPTION"
  | invalidArgument => "INVALID_ARGUMENT"
  | systemShutdown => "SYSTEM_SHUTDOWN"
  | closeRealm => "CLOSE_REALM"
  | goodbyeAndOut => "GOODBYE_AND_OUT"
  | protocolViolation => "PROTOCOL_VIOLATION"
  | notAuthorized => "NOT_AUTHORIZED"
  | authorizationFailed => "AUTHORIZATION_FAILED"
  | authenticationFailed => "AUTHENTICATION_FAILED"
  | noSuchRealm => "NO_SUCH_REALM"
  | noSuchRole => "NO_SUCH_ROLE"
  | noSuchSession => "NO_SUCH_SESSION"
  | canceled => "CANCELED"
  | timeout => "TIMEOUT"
  | optionNotAllowed => "OPTION_NOT_ALLOWED"
  | noEligibleCallee => "NO_ELIGIBLE_CALLEE"
  | optionDisallowedDiscloseMe => "OPTION_DISALLOWED_DISCLOSE_ME"
  | networkFailure => "NETWORK_FAILURE"
  | runtimeError => "RUNTIME_ERROR"

end KnownUri

end Wamp
