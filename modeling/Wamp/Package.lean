/-!
# Packages

The packages that peers are told apart by.
-/

namespace Wamp

/-- A package. -/
inductive Package where
  | core | protocol | errors | client
  deriving DecidableEq

namespace Package

/-- The packages, each after those that it needs. -/
def all : List Package := [core, protocol, errors, client]

/-- The name of a package. -/
def name : Package → String
  | core => "@wampkit/core"
  | protocol => "@wampkit/protocol"
  | errors => "@wampkit/errors"
  | client => "@wampkit/client"

/-- The version of the errors package. -/
def version : String := "0.1.0"

end Package

end Wamp
