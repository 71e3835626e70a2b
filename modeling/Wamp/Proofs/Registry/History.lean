import Wamp.Peer
import Wamp.Proofs.Schema
import Wamp.Proofs.Uri.Grammar

/-!
# The history of a registry

A registry takes one turn after another. The store that it finds is shared with other registries,
which may have changed it in any way since the last turn, so a turn brings its store along. `Turned`
lists what a turn can do to a registry; from it follow the facts about whole histories:

* the URI that is reported for a class is the one that was last registered for it with success
  (`get?_classUris_after`);
* the URIs that a registry reports are valid in every state that it reaches (`Sound.after`).
-/

namespace Wamp

/-- An operation and the store that it finds. -/
structure Turn (σ : Type) where
  store : Store
  operation : Operation σ

/-- The URI of an accepted configuration meets the strictness that the configuration asks for. -/
theorem RegistryConfig.isUri_of_resolve {runtimeErrorUri uriPolicy : Value} {sink : Sink}
    {config : RegistryConfig} (h : resolve runtimeErrorUri uriPolicy sink = .ok config) :
    Uri.isUri ⟨some config.strictUris, some .exact⟩ config.runtimeErrorUri = true := by
  unfold resolve at h
  split at h
  · cases h
  · next fields _ =>
    obtain ⟨uri, hvalid, rfl⟩ := map_eq_ok_iff.mp h
    obtain ⟨huri, rfl⟩ := Uri.validate_eq_ok_iff.mp hvalid
    exact huri

/-- Reporting a failure leaves the registry as it is. -/
@[simp]
theorem Peer.registry_reported {σ : Type} (p : Peer σ) (fresh : Nat)
    (result : Except Fault (Report × Option Diagnostic)) :
    (p.reported fresh result).peer.registry = p.registry := by
  fun_cases p.reported fresh result <;> rfl

/-- Replying to an invocation leaves the peer as it is. -/
@[simp]
theorem Peer.peer_replied {σ : Type} (p : Peer σ) (requestId : Number)
    (result : Except Fault (Report × Option Diagnostic)) :
    (p.replied requestId result).peer = p := by
  fun_cases p.replied requestId result <;> rfl

namespace Registry

variable {σ : Type}

/-- What comes of a turn. -/
def outcome (r : Registry σ) (t : Turn σ) : Outcome σ := Peer.step ⟨r, t.store⟩ t.operation

/-- The registry after a turn. -/
def turn (r : Registry σ) (t : Turn σ) : Registry σ := (r.outcome t).peer.registry

/-- The registry after a sequence of turns. -/
def after (r : Registry σ) (turns : List (Turn σ)) : Registry σ := turns.foldl turn r

/-- Each of a sequence of turns with the registry that takes it. -/
def trace (r : Registry σ) : List (Turn σ) → List (Registry σ × Turn σ)
  | [] => []
  | t :: turns => (r, t) :: (r.turn t).trace turns

/-- What comes of each of a sequence of turns. -/
def outcomes (r : Registry σ) (turns : List (Turn σ)) : List (Outcome σ) :=
  (r.trace turns).map fun (r, t) => r.outcome t

/-- The URI that a turn registers for a class, if it is such a registration and succeeds. -/
def uriGiven? (r : Registry σ) (c : FailureClass) (t : Turn σ) : Option String :=
  match t.operation, (r.outcome t).answer with
  | .registerUri c' uri, .ok _ => if c' = c then some uri else none
  | _, _ => none

/-- The URI that was last registered for a class with success in a sequence of turns. -/
def lastUri? (r : Registry σ) (c : FailureClass) : List (Turn σ) → Option String
  | [] => none
  | t :: turns => ((r.turn t).lastUri? c turns).or (r.uriGiven? c t)

/-! ## One turn -/

/-- What a turn makes of a registry: it leaves it as it is, seals it, or adds to one of its
tables. -/
inductive Turned (r : Registry σ) (t : Turn σ) : Registry σ → Prop
  | same (hgiven : ∀ c, r.uriGiven? c t = none) : Turned r t r
  | closed (ht : t.operation = .close) : Turned r t r.sealed
  | factory {uri : String} {factory : Factory σ} {matching : MatchPolicy}
      (ht : t.operation = .registerResponse uri (some factory) matching)
      (huri : Uri.isUri (r.policy matching) uri = true) (hopen : r.isSealed = false) :
      Turned r t { r with factories := r.factories.insert uri factory matching }
  | uri {c : FailureClass} {uri : String} (hgiven : r.uriGiven? c t = some uri)
      (hother : ∀ c', c ≠ c' → r.uriGiven? c' t = none)
      (huri : Uri.isUri (r.policy .exact) uri = true) (hopen : r.isSealed = false) :
      Turned r t { r with classUris := r.classUris.put c uri }

/-- A factory is registered exactly if the URI is valid, there is a factory and the registry is
open. A diagnostic tells when it takes the place of another. -/
theorem registerResponse_eq_ok_iff {r r' : Registry σ} {uri : String}
    {factory? : Option (Factory σ)} {matching : MatchPolicy} {d : Option Diagnostic} :
    r.registerResponse uri factory? matching = .ok (r', d) ↔
      ∃ factory, factory? = some factory ∧ Uri.isUri (r.policy matching) uri = true ∧
        r.isSealed = false ∧
        r' = { r with factories := r.factories.insert uri factory matching } ∧
        d = (r.factories.registered? uri matching).map fun _ =>
          .replacingFactory uri matching := by
  unfold registerResponse Uri.validate
  by_cases huri : Uri.isUri (r.policy matching) uri = true
  · cases factory? with
    | none => simp [huri]
    | some factory => cases r.isSealed <;> simp [huri, UriMap.register, eq_comm]
  · simp [huri]

/-- The URI of a class is registered exactly if it is valid and the registry is open. A diagnostic
tells when it takes the place of another. -/
theorem registerUri_eq_ok_iff {r r' : Registry σ} {c : FailureClass} {uri : String}
    {d : Option Diagnostic} :
    r.registerUri c uri = .ok (r', d) ↔
      Uri.isUri (r.policy .exact) uri = true ∧ r.isSealed = false ∧
        r' = { r with classUris := r.classUris.put c uri } ∧
        d = (r.classUris.get? c).map fun old => .replacingUri c.name old uri := by
  unfold registerUri Uri.validate
  by_cases huri : Uri.isUri (r.policy .exact) uri = true
  · cases r.isSealed <;> simp [huri, eq_comm]
  · simp [huri]

/-- A turn that leaves the registry as it is and registers nothing. -/
theorem Turned.of_eq {r : Registry σ} {t : Turn σ} (hturn : r.turn t = r)
    (hgiven : ∀ c, r.uriGiven? c t = none) : Turned r t (r.turn t) := by
  rw [hturn]
  exact .same hgiven

/-- The registration of a factory adds it or leaves the registry as it is. -/
theorem turned_registerResponse (r : Registry σ) (s : Store) (uri : String)
    (factory? : Option (Factory σ)) (matching : MatchPolicy) :
    Turned r ⟨s, .registerResponse uri factory? matching⟩
      (r.turn ⟨s, .registerResponse uri factory? matching⟩) := by
  cases h : r.registerResponse uri factory? matching with
  | error fault =>
    -- A refused registration changes nothing.
    refine .of_eq ?_ fun _ => rfl
    simp [turn, outcome, Peer.step, h, Peer.registered, Peer.refuse]
  | ok result =>
    obtain ⟨r', d⟩ := result
    obtain ⟨factory, rfl, huri, hopen, rfl, -⟩ := registerResponse_eq_ok_iff.mp h
    have hturn : r.turn ⟨s, .registerResponse uri (some factory) matching⟩ =
        { r with factories := r.factories.insert uri factory matching } := by
      simp [turn, outcome, Peer.step, h, Peer.registered]
    rw [hturn]
    exact .factory rfl huri hopen

/-- The registration of the URI of a class puts it in or leaves the registry as it is. -/
theorem turned_registerUri (r : Registry σ) (s : Store) (c : FailureClass) (uri : String) :
    Turned r ⟨s, .registerUri c uri⟩ (r.turn ⟨s, .registerUri c uri⟩) := by
  cases h : r.registerUri c uri with
  | error fault =>
    refine .of_eq ?_ fun c' => ?_
    · simp [turn, outcome, Peer.step, h, Peer.registered, Peer.refuse]
    · simp [uriGiven?, outcome, Peer.step, h, Peer.registered, Peer.refuse]
  | ok result =>
    obtain ⟨r', d⟩ := result
    obtain ⟨huri, hopen, rfl, -⟩ := registerUri_eq_ok_iff.mp h
    have hturn : r.turn ⟨s, .registerUri c uri⟩ =
        { r with classUris := r.classUris.put c uri } := by
      simp [turn, outcome, Peer.step, h, Peer.registered]
    -- The turn gives a URI to this class and to no other.
    have hgiven (c' : FailureClass) :
        r.uriGiven? c' ⟨s, .registerUri c uri⟩ = if c = c' then some uri else none := by
      simp [uriGiven?, outcome, Peer.step, h, Peer.registered]
    rw [hturn]
    refine .uri ((hgiven c).trans (if_pos rfl)) (fun c' hne => ?_) huri hopen
    exact (hgiven c').trans (if_neg hne)

/-- Every turn does one of these things. -/
theorem turned (r : Registry σ) (t : Turn σ) : Turned r t (r.turn t) := by
  obtain ⟨s, operation⟩ := t
  cases operation with
  | registerResponse uri factory? matching =>
    exact turned_registerResponse r s uri factory? matching
  | registerUri c uri => exact turned_registerUri r s c uri
  | close => exact .closed rfl
  | factoryFor uri =>
    refine .of_eq ?_ fun _ => rfl
    rw [turn, outcome, Peer.step]
    split <;> rfl
  | uriOf c =>
    refine .of_eq ?_ fun _ => rfl
    rw [turn, outcome, Peer.step]
    split <;> rfl
  | toFailure m state fresh =>
    refine .of_eq ?_ fun _ => rfl
    rw [turn, outcome, Peer.step]
    split <;> rfl
  | toInvocation failure fresh =>
    exact .of_eq (Peer.registry_reported ..) fun _ => rfl
  | toReply failure requestId =>
    exact .of_eq (congrArg Peer.registry (Peer.peer_replied ..)) fun _ => rfl
  | setInvocation failure err => exact .of_eq rfl fun _ => rfl
  | clearAttached failure => exact .of_eq rfl fun _ => rfl

/-- A turn keeps the configuration. -/
theorem Turned.config {r r' : Registry σ} {t : Turn σ} (h : Turned r t r') :
    r'.config = r.config := by
  cases h <;> rfl

/-- After a turn, a class has the URI that the turn registers for it, and otherwise the one that it
had. -/
theorem Turned.get?_classUris {r r' : Registry σ} {t : Turn σ} (h : Turned r t r')
    (c : FailureClass) : r'.classUris.get? c = (r.uriGiven? c t).or (r.classUris.get? c) := by
  cases h with
  | same hgiven => rw [hgiven c, Option.none_or]
  | closed ht =>
    have hgiven : r.uriGiven? c t = none := by simp [uriGiven?, ht]
    rw [hgiven, Option.none_or]
    rfl
  | factory ht =>
    have hgiven : r.uriGiven? c t = none := by simp [uriGiven?, ht]
    rw [hgiven, Option.none_or]
  | @uri c' uri hgiven hother =>
    by_cases hc : c' = c
    · subst hc
      rw [hgiven, Option.some_or]
      exact Assoc.get?_put_self c' uri r.classUris
    · rw [hother c hc, Option.none_or]
      exact Assoc.get?_put_of_ne hc uri r.classUris

/-! ## Whole histories -/

/-- A history with one more turn at its end. -/
theorem after_concat (r : Registry σ) (turns : List (Turn σ)) (t : Turn σ) :
    r.after (turns ++ [t]) = (r.after turns).turn t := List.foldl_concat turn r t turns

/-- A history keeps the configuration. -/
theorem config_after (r : Registry σ) (turns : List (Turn σ)) :
    (r.after turns).config = r.config := by
  induction turns generalizing r with
  | nil => rfl
  | cons t turns ih => exact (ih (r.turn t)).trans (r.turned t).config

/-- After a history, a class has the URI that was last registered for it, and otherwise the one that
it had before. -/
theorem get?_classUris_after (r : Registry σ) (c : FailureClass) (turns : List (Turn σ)) :
    (r.after turns).classUris.get? c = (r.lastUri? c turns).or (r.classUris.get? c) := by
  induction turns generalizing r with
  | nil => exact Option.none_or.symm
  | cons t turns ih =>
    -- The later turns come first, then this one, then what was there before.
    calc (r.after (t :: turns)).classUris.get? c
        = ((r.turn t).after turns).classUris.get? c := rfl
      _ = ((r.turn t).lastUri? c turns).or ((r.turn t).classUris.get? c) := ih (r.turn t)
      _ = ((r.turn t).lastUri? c turns).or ((r.uriGiven? c t).or (r.classUris.get? c)) := by
          rw [(r.turned t).get?_classUris c]
      _ = (r.lastUri? c (t :: turns)).or (r.classUris.get? c) := (Option.or_assoc ..).symm

/-! ## Valid URIs -/

/-- The URIs that a registry may report meet its own strictness. -/
structure Sound (r : Registry σ) : Prop where
  runtimeErrorUri : Uri.isUri (r.policy .exact) r.config.runtimeErrorUri = true
  classUris : ∀ c uri, r.classUris.get? c = some uri → Uri.isUri (r.policy .exact) uri = true

/-- A registry that is configured and still empty is sound. -/
theorem sound_ofConfig {runtimeErrorUri uriPolicy : Value} {sink : Sink} {config : RegistryConfig}
    (h : RegistryConfig.resolve runtimeErrorUri uriPolicy sink = .ok config) :
    (ofConfig config : Registry σ).Sound where
  runtimeErrorUri := RegistryConfig.isUri_of_resolve h
  classUris := nofun

/-- Every turn keeps a registry sound. -/
theorem Sound.turned {r r' : Registry σ} {t : Turn σ} (h : r.Sound) (ht : Turned r t r') :
    r'.Sound := by
  cases ht with
  | same _ => exact h
  | closed _ => exact ⟨h.runtimeErrorUri, h.classUris⟩
  | factory _ _ _ =>
    -- Factories are not reported.
    exact ⟨h.runtimeErrorUri, h.classUris⟩
  | @uri c uri _ _ huri _ =>
    refine ⟨h.runtimeErrorUri, fun c' uri' h' => ?_⟩
    by_cases hc : c = c'
    · subst hc
      obtain rfl : uri = uri' := by simpa using h'
      exact huri
    · exact h.classUris c' uri' ((Assoc.get?_put_of_ne hc uri r.classUris).symm.trans h')

/-- Every history keeps a registry sound. -/
theorem Sound.after {r : Registry σ} (h : r.Sound) (turns : List (Turn σ)) :
    (r.after turns).Sound := by
  induction turns generalizing r with
  | nil => exact h
  | cons t turns ih => exact ih (h.turned (r.turned t))

/-- A registry in some state: one that an accepted configuration and a sequence of turns lead to. -/
def Reachable (r : Registry σ) : Prop :=
  ∃ runtimeErrorUri uriPolicy sink config turns,
    RegistryConfig.resolve runtimeErrorUri uriPolicy sink = .ok config ∧
      r = (ofConfig config).after turns

/-- A registry is sound in every state. -/
theorem Reachable.sound {r : Registry σ} (h : r.Reachable) : r.Sound := by
  obtain ⟨runtimeErrorUri, uriPolicy, sink, config, turns, hconfig, rfl⟩ := h
  exact (sound_ofConfig hconfig).after turns

end Registry

end Wamp
