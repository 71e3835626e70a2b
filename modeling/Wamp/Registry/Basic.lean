import Wamp.Failure.Store
import Wamp.Registry.Config
import Wamp.Uri.Map

/-!
# The registry

A registry stands between remote errors and local failures. Inbound, a map from URIs to
factories tells which failure to raise for an error message; outbound, a table from classes to URIs
tells which URI to report for a failure. Registrations belong to the time before the registry is
sealed.
-/

namespace Wamp

/-- Builds the failure to raise for an error message. Factories belong to an application, and what
one builds may depend on the state `σ` that the application is in. -/
structure Factory (σ : Type) where
  /-- What the factory is known as. -/
  label : String
  /-- What the factory returns for a message, or the fault that it fails with. A factory is pure: it
  is given the state of the application and the message and nothing else, so it has no access to a
  registry or to the store and changes neither. What it makes anew gets its identity later. -/
  build : σ → ErrorMessage → Except Fault Product

/-- A registry, of factories that depend on a state `σ`. -/
structure Registry (σ : Type) where
  config : RegistryConfig
  /-- The factories for the URIs of error messages. -/
  factories : UriMap (Factory σ)
  /-- The URIs for the classes of failures. -/
  classUris : Assoc FailureClass String
  isSealed : Bool

namespace Registry

variable {σ : Type}

/-- A registry in which nothing is registered. -/
def ofConfig (config : RegistryConfig) : Registry σ := ⟨config, .empty, [], false⟩

/-- The registry after its time of registrations. -/
def sealed (r : Registry σ) : Registry σ := { r with isSealed := true }

/-- The policy for the URIs of a registry. -/
def policy (r : Registry σ) (matching : MatchPolicy) : Uri.Policy :=
  ⟨some r.config.strictUris, some matching⟩

/-- Registers a factory. The URI is checked first, then that there is a factory, then that the
registry is open. -/
def registerResponse (r : Registry σ) (uri : String) (factory : Option (Factory σ))
    (matching : MatchPolicy) : Except Fault (Registry σ × Option Diagnostic) :=
  match Uri.validate (r.policy matching) uri, factory with
  | .error fault, _ => .error fault
  | .ok _, none => .error .notCallable
  | .ok uri, some factory =>
    if r.isSealed then .error (.sealed uri)
    else
      let (factories, replaced) := r.factories.register uri factory matching
      .ok ({ r with factories := factories },
        replaced.map fun _ => .replacingFactory uri matching)

/-- The factory for a URI. -/
def factoryFor (r : Registry σ) (uri : String) : Except Fault (Factory σ) :=
  r.factories.resolve uri

/-- The failure to raise for an error message: what the factory for its URI builds, or the message
itself as a failure when there is none. Only a lookup that finds nothing is made up for: a factory
that fails has failed, whatever the fault. -/
def toFailure (r : Registry σ) (state : σ) (m : ErrorMessage) : Except Fault Product :=
  match r.factoryFor m.error with
  | .ok factory => factory.build state m
  | .error (.noEntry _) => .ok (.object (.failure (.ofContent (.response m))))
  | .error fault => .error fault

/-- Registers the URI of a class. The URI is checked first, then that the registry is open. -/
def registerUri (r : Registry σ) (c : FailureClass) (uri : String) :
    Except Fault (Registry σ × Option Diagnostic) :=
  match Uri.validate (r.policy .exact) uri with
  | .error fault => .error fault
  | .ok uri =>
    if r.isSealed then .error (.sealed c.name)
    else
      .ok ({ r with classUris := r.classUris.put c uri },
        (r.classUris.get? c).map fun old => .replacingUri c.name old uri)

/-- The URI of a class. -/
def uriOf (r : Registry σ) (c : FailureClass) : Except Fault String :=
  match r.classUris.get? c with
  | some uri => .ok uri
  | none => .error (.noEntry c.name)

/-- The URI to report for a failure of a class, and a diagnostic when that is the general one. -/
def uriFor (r : Registry σ) (c : Option FailureClass) (kindName : String) :
    String × Option Diagnostic :=
  match c.bind r.classUris.get? with
  | some uri => (uri, none)
  | none => (r.config.runtimeErrorUri, some (.noUri kindName r.config.runtimeErrorUri))

end Registry

/-- The positional arguments of an error: those put on it, if they may travel; otherwise its
message, if there is one. -/
def Failure.positionalArgs (f : Failure) : List Value :=
  match f.args.bind fun v => (Schema.list v).result? with
  | some args => args
  | none => if f.message = "" then [] else [.string f.message]

/-- The positional arguments of an object: those of an error, and none of any other. -/
def Body.positionalArgs : Body → List Value
  | .failure f => f.positionalArgs
  | _ => []

/-- The positional arguments of a primitive: a string, a number or a truth value itself. -/
def Primitive.positionalArgs : Primitive → List Value
  | .string s => [.string s]
  | .number n => [.number n]
  | .bool b => [.bool b]
  | _ => []

/-- The invocation error to report for a failure. -/
inductive Report where
  /-- One that is there already. -/
  | existing (id : InvocationId)
  /-- A new one. -/
  | new (error : InvocationError)

/-- The fields of the invocation error to report. -/
def Report.fields? (s : Store) : Report → Option InvocationError
  | .existing id => s.invocation? id
  | .new e => some e

namespace Registry

variable {σ : Type}

/-- A new invocation error for a failure of a class. -/
def newReport (r : Registry σ) (c : Option FailureClass) (kindName : String) (args : List Value) :
    Except Fault (Report × Option Diagnostic) :=
  let (uri, diagnostic) := r.uriFor c kindName
  (InvocationError.ofArgs uri args).map fun e => (.new e, diagnostic)

/-- The invocation error to report for a failure: itself, if it is one; the one that it is attached
to; or a new one under the URI for its class. -/
def toInvocation (r : Registry σ) (s : Store) : Thrown → Except Fault (Report × Option Diagnostic)
  | .invocation id => .ok (.existing id, none)
  | .object o =>
    match s.attached? (.object o) with
    | some id => .ok (.existing id, none)
    | none => r.newReport o.body.class? o.body.kindName o.body.positionalArgs
  | .primitive p => r.newReport none p.kindName p.positionalArgs

end Registry

end Wamp
