import Wamp.Diagnostic
import Wamp.Fault
import Wamp.Schema.Basic
import Wamp.Uri.Known

/-!
# Configuration of a registry

A registry is configured by the URI for failures that have none of their own, by how strictly its
URIs are validated, and by where its diagnostics go. What is not given takes a default value.
-/

namespace Wamp

/-- How strictly a registry validates its URIs. -/
inductive UriStrictness where
  | loose | strict
  deriving DecidableEq

/-- The word for a strictness. -/
def UriStrictness.word : UriStrictness → String
  | .loose => "loose"
  | .strict => "strict"

/-- The strictnesses. -/
def UriStrictness.all : List UriStrictness := [.loose, .strict]

/-- The fields of a configuration that are data. -/
structure ConfigFields where
  runtimeErrorUri : String
  /-- The word for a strictness. -/
  uriPolicy : String

/-- The fields that are not given. -/
def ConfigFields.default : ConfigFields :=
  ⟨KnownUri.runtimeError.uri, UriStrictness.loose.word⟩

namespace Schema

/-- A string with a character in it. -/
def nonEmptyString : Value → Checked String
  | .string s => if s = "" then .refuse (.tooShort 1) else .ok s
  | v => .refuse (.wrongType .string v.typeName)

/-- The fields of a configuration. -/
def configFields (runtimeErrorUri uriPolicy : Value) : Checked ConfigFields :=
  (((nonEmptyString runtimeErrorUri).below (.key "runtimeErrorUri")).and
    ((word (UriStrictness.all.map UriStrictness.word) uriPolicy).below (.key "uriPolicy"))).map
      fun (uri, policy) => ⟨uri, policy⟩

/-- A configuration as a dictionary; its other keys are of no account. -/
def config : Value → Checked ConfigFields :=
  object fun d =>
    configFields ((d.get? "runtimeErrorUri").getD .undefined)
      ((d.get? "uriPolicy").getD .undefined)

end Schema

/-- The configuration that a registry works with. -/
structure RegistryConfig where
  /-- The URI reported for failures that have none of their own. -/
  runtimeErrorUri : String
  strictUris : Bool
  sink : Sink

namespace RegistryConfig

/-- A value, or the default in the place of nothing. -/
def orDefault (value : Value) (default : String) : Value :=
  match value with
  | .undefined | .null => .string default
  | v => v

/-- The configuration made of what is given. -/
def resolve (runtimeErrorUri uriPolicy : Value) (sink : Sink) : Except Fault RegistryConfig :=
  match Schema.configFields (orDefault runtimeErrorUri ConfigFields.default.runtimeErrorUri)
    (orDefault uriPolicy ConfigFields.default.uriPolicy) with
  | .error issues => .error (.malformed issues)
  | .ok fields =>
    let strict : Bool := fields.uriPolicy = UriStrictness.strict.word
    (Uri.validate ⟨some strict, some .exact⟩ fields.runtimeErrorUri).map fun uri =>
      ⟨uri, strict, sink⟩

/-- The configuration of a registry that is given none. -/
def default : RegistryConfig := ⟨KnownUri.runtimeError.uri, false, .console⟩

/-- The configuration that is made of nothing is the default one. -/
theorem resolve_undefined : resolve .undefined .undefined .console = .ok default := rfl

end RegistryConfig

end Wamp
