import Wamp.Registry.Basic

/-!
# Peers

A peer works with a registry and with the store of failures, which other registries may share. Each
operation has an outcome: an answer or a fault, at most one diagnostic, and the peer afterwards. An
operation that has no answer leaves the peer as it is.
-/

namespace Wamp

/-- A request to a registry whose factories depend on a state `σ` of the application. -/
inductive Operation (σ : Type) where
  /-- Register a factory, if there is one, for a URI. -/
  | registerResponse (uri : String) (factory : Option (Factory σ)) (matching : MatchPolicy)
  /-- Register the URI of a class. -/
  | registerUri (failureClass : FailureClass) (uri : String)
  /-- End the time of registrations. -/
  | close
  /-- Look up the factory for a URI. -/
  | factoryFor (uri : String)
  /-- Look up the URI of a class. -/
  | uriOf (failureClass : FailureClass)
  /-- Turn an error message into the failure to raise while the application is in the given state;
  a new failure is identified by the index. -/
  | toFailure (message : ErrorMessage) (state : σ) (fresh : Nat)
  /-- Turn a failure into the invocation error to report; a new one is identified by the index. -/
  | toInvocation (failure : Thrown) (fresh : Nat)
  /-- Turn a failure into the reply to an invocation. -/
  | toReply (failure : Thrown) (requestId : Number)
  /-- Set the invocation error to report for a failure. -/
  | setInvocation (failure : Thrown) (err : InvocationId)
  /-- Remove what a failure is attached to. -/
  | clearAttached (failure : Thrown)

/-- What an operation results in. -/
inductive Answer (σ : Type) where
  | done
  | factory (factory : Factory σ)
  | uri (uri : String)
  | failure (failure : Thrown)
  | invocation (id : InvocationId)
  | reply (message : ErrorMessage)
  | cleared (wasAttached : Bool)

/-- A registry and the store of failures that it works on. -/
structure Peer (σ : Type) where
  registry : Registry σ
  store : Store

/-- What comes of an operation. -/
structure Outcome (σ : Type) where
  peer : Peer σ
  answer : Except Fault (Answer σ)
  diagnostic : Option Diagnostic

namespace Peer

variable {σ : Type}

/-- The operation has no result. -/
def refuse (p : Peer σ) (fault : Fault) : Outcome σ := ⟨p, .error fault, none⟩

/-- The operation has a result and changes nothing. -/
def tell (p : Peer σ) (answer : Answer σ) : Outcome σ := ⟨p, .ok answer, none⟩

/-- The result of a registration. -/
def registered (p : Peer σ) : Except Fault (Registry σ × Option Diagnostic) → Outcome σ
  | .ok (registry, diagnostic) => ⟨{ p with registry := registry }, .ok .done, diagnostic⟩
  | .error fault => p.refuse fault

/-- The outcome of finding the invocation error to report, which is kept under the index if it is
new. -/
def reported (p : Peer σ) (fresh : Nat) : Except Fault (Report × Option Diagnostic) → Outcome σ
  | .ok (.existing id, diagnostic) => ⟨p, .ok (.invocation id), diagnostic⟩
  | .ok (.new e, diagnostic) =>
    ⟨{ p with store := p.store.setFields ⟨fresh⟩ e }, .ok (.invocation ⟨fresh⟩), diagnostic⟩
  | .error fault => p.refuse fault

/-- The reply to an invocation that failed with the invocation error to report. Nothing is known of
an identity that the store does not hold. -/
def replied (p : Peer σ) (requestId : Number) :
    Except Fault (Report × Option Diagnostic) → Outcome σ
  | .ok (report, diagnostic) =>
    match report.fields? p.store with
    | some e => ⟨p, .ok (.reply (e.toErrorMessage requestId .invocation)), diagnostic⟩
    | none => ⟨p, .ok .done, diagnostic⟩
  | .error fault => p.refuse fault

/-- Carries out an operation. -/
def step (p : Peer σ) : Operation σ → Outcome σ
  | .registerResponse uri factory matching =>
    p.registered (p.registry.registerResponse uri factory matching)
  | .registerUri c uri => p.registered (p.registry.registerUri c uri)
  | .close => ⟨{ p with registry := p.registry.sealed }, .ok .done, none⟩
  | .factoryFor uri =>
    match p.registry.factoryFor uri with
    | .ok factory => p.tell (.factory factory)
    | .error fault => p.refuse fault
  | .uriOf c =>
    match p.registry.uriOf c with
    | .ok uri => p.tell (.uri uri)
    | .error fault => p.refuse fault
  | .toFailure m state fresh =>
    match p.registry.toFailure state m with
    | .ok product =>
      let (store, failure) := p.store.keep fresh product
      ⟨{ p with store := store }, .ok (.failure failure), none⟩
    | .error fault => p.refuse fault
  | .toInvocation failure fresh =>
    p.reported fresh (p.registry.toInvocation p.store failure)
  | .toReply failure requestId =>
    p.replied requestId (p.registry.toInvocation p.store failure)
  | .setInvocation failure err =>
    let (store, diagnostic) := p.store.setInvocation failure err
    ⟨{ p with store := store }, .ok .done, diagnostic⟩
  | .clearAttached failure =>
    let (store, wasAttached) := p.store.clearAttached failure
    ⟨{ p with store := store }, .ok (.cleared wasAttached), none⟩

end Peer

end Wamp
