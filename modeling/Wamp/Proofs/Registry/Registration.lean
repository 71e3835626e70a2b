import Wamp.Proofs.Registry.Translation
import Wamp.Proofs.Uri.Edits

/-!
# Registrations

A registration makes its checks in a fixed order and is refused with the fault of the first one that
it does not pass: the URI, then the factory if it is to register one, then the closing of the
registry (`registerResponse_eq_error_iff`, `registerUri_eq_error_iff`). What is refused leaves no
trace, so whatever is asked for later comes out as if it had not been asked for; what is accepted
changes the entry under its own key and nothing else (`registration_exact`).
-/

namespace Wamp

/-! ## All entries but one -/

namespace UriMap

variable {V : Type _} (m : UriMap V) (uri : String) (value : V) (policy : MatchPolicy)

/-- The entries of other URIs and match policies, in their order. -/
def entriesBut : List (Entry V) := m.entries.filter fun e => ¬ (e.uri = uri ∧ e.matching = policy)

/-- A registration leaves all other entries, in their order. -/
theorem entriesBut_insert : (m.insert uri value policy).entriesBut uri policy =
    m.entriesBut uri policy := by
  rw [entriesBut, entriesBut, ← entries_erase, ← entries_erase, erase_insert]

end UriMap

namespace Registry

variable {σ : Type}

/-! ## Refused registrations -/

/-- The fault of the first check that the registration of a factory does not pass. -/
inductive ResponseFault (r : Registry σ) (uri : String) (matching : MatchPolicy) :
    Option (Factory σ) → Fault → Prop
  /-- The URI is checked first, whatever else is wrong, with the strictness of the registry and
  under the given match policy. -/
  | invalidUri {factory? : Option (Factory σ)}
      (huri : Uri.isUri ⟨some r.config.strictUris, some matching⟩ uri = false) :
      ResponseFault r uri matching factory?
        (.invalidUri uri ⟨some r.config.strictUris, some matching⟩)
  /-- What is to be registered is checked next. -/
  | notCallable (huri : Uri.isUri ⟨some r.config.strictUris, some matching⟩ uri = true) :
      ResponseFault r uri matching none .notCallable
  /-- The closing of the registry comes last. -/
  | sealed {factory : Factory σ}
      (huri : Uri.isUri ⟨some r.config.strictUris, some matching⟩ uri = true)
      (hsealed : r.isSealed = true) : ResponseFault r uri matching (some factory) (.sealed uri)

/-- The fault of the first check that the registration of the URI of a class does not pass. -/
inductive UriFault (r : Registry σ) (c : FailureClass) (uri : String) : Fault → Prop
  /-- The URI is checked with the strictness of the registry, and as an exact one. -/
  | invalidUri (huri : Uri.isUri ⟨some r.config.strictUris, some .exact⟩ uri = false) :
      UriFault r c uri (.invalidUri uri ⟨some r.config.strictUris, some .exact⟩)
  | sealed (huri : Uri.isUri ⟨some r.config.strictUris, some .exact⟩ uri = true)
      (hsealed : r.isSealed = true) : UriFault r c uri (.sealed c.name)

/-- The policy for a URI has the strictness of the registry and the match policy that is asked
for. -/
theorem policy_eq (r : Registry σ) (matching : MatchPolicy) :
    r.policy matching = ⟨some r.config.strictUris, some matching⟩ := rfl

/-- The registration of a factory is refused with the fault of the first check that it does not
pass. -/
theorem registerResponse_eq_error_iff {r : Registry σ} {uri : String}
    {factory? : Option (Factory σ)} {matching : MatchPolicy} {fault : Fault} :
    r.registerResponse uri factory? matching = .error fault ↔
      ResponseFault r uri matching factory? fault := by
  unfold registerResponse
  rw [policy_eq]
  constructor
  · intro h
    split at h
    · next hvalid =>
      obtain ⟨huri, rfl⟩ := Uri.validate_eq_error_iff.mp hvalid
      cases h
      exact .invalidUri huri
    · next hvalid =>
      cases h
      exact .notCallable (Uri.validate_eq_ok_iff.mp hvalid).1
    · next hvalid =>
      obtain ⟨huri, rfl⟩ := Uri.validate_eq_ok_iff.mp hvalid
      split at h
      · next hsealed =>
        cases h
        exact .sealed huri hsealed
      · cases h
  · rintro (huri | huri | ⟨huri, hsealed⟩)
    · simp [Uri.validate, huri]
    · simp [Uri.validate, huri]
    · simp [Uri.validate, huri, hsealed]

/-- The registration of the URI of a class is refused with the fault of the first check that it does
not pass. -/
theorem registerUri_eq_error_iff {r : Registry σ} {c : FailureClass} {uri : String}
    {fault : Fault} : r.registerUri c uri = .error fault ↔ UriFault r c uri fault := by
  rw [registerUri, policy_eq]
  constructor
  · intro h
    split at h
    · next hvalid =>
      obtain ⟨huri, rfl⟩ := Uri.validate_eq_error_iff.mp hvalid
      cases h
      exact .invalidUri huri
    · next hvalid =>
      split at h
      · next hsealed =>
        cases h
        exact .sealed (Uri.validate_eq_ok_iff.mp hvalid).1 hsealed
      · cases h
  · rintro (huri | ⟨huri, hsealed⟩)
    · simp [Uri.validate, huri]
    · simp [Uri.validate, huri, hsealed]

/-- A turn that is refused leaves no trace. -/
structure Traceless (r : Registry σ) (t : Turn σ) (fault : Fault) : Prop where
  /-- The registry and the store stay as they are, and nothing is noted. -/
  outcome : r.outcome t = ⟨⟨r, t.store⟩, .error fault, none⟩
  /-- What comes of any later turns is what comes of them when this one is left out. -/
  later : ∀ later, r.outcomes (t :: later) =
    ⟨⟨r, t.store⟩, .error fault, none⟩ :: r.outcomes later

/-- A turn that leaves the registry and the store as they are leaves no trace. -/
theorem Traceless.of_outcome {r : Registry σ} {t : Turn σ} {fault : Fault}
    (h : r.outcome t = ⟨⟨r, t.store⟩, .error fault, none⟩) : Traceless r t fault := by
  refine ⟨h, fun later => ?_⟩
  have hturn : r.turn t = r := by rw [turn, h]
  calc r.outcomes (t :: later) = r.outcome t :: (r.turn t).outcomes later := rfl
    _ = ⟨⟨r, t.store⟩, .error fault, none⟩ :: r.outcomes later := by rw [hturn, h]

/-! ## Accepted registrations -/

/-- A factory is registered in a registry, which is otherwise as it was. -/
structure FactoryAdded (r r' : Registry σ) (uri : String) (factory : Factory σ)
    (matching : MatchPolicy) : Prop where
  entry : r'.factories.registered? uri matching = some factory
  /-- Nothing else is registered, replaced or removed. -/
  registered : ∀ uri' matching', ¬ (uri' = uri ∧ matching' = matching) →
    r'.factories.registered? uri' matching' = r.factories.registered? uri' matching'
  /-- The other entries keep their order. -/
  others : r'.factories.entriesBut uri matching = r.factories.entriesBut uri matching
  classUris : r'.classUris = r.classUris
  isSealed : r'.isSealed = r.isSealed
  config : r'.config = r.config

/-- The URI of a class is registered in a registry, which is otherwise as it was. -/
structure UriAdded (r r' : Registry σ) (c : FailureClass) (uri : String) : Prop where
  entry : r'.uriOf c = .ok uri
  /-- Every other class has the URI, or the lack of one, that it had. -/
  others : ∀ c', c' ≠ c → r'.uriOf c' = r.uriOf c'
  factories : r'.factories = r.factories
  isSealed : r'.isSealed = r.isSealed
  config : r'.config = r.config

/-- Adding a factory to the table adds it and nothing else. -/
theorem factoryAdded_insert (r : Registry σ) (uri : String) (factory : Factory σ)
    (matching : MatchPolicy) :
    FactoryAdded r { r with factories := r.factories.insert uri factory matching } uri factory
      matching where
  entry := r.factories.registered?_insert_self uri factory matching
  registered _ _ h := r.factories.registered?_insert_of_ne uri factory matching h
  others := r.factories.entriesBut_insert uri factory matching
  classUris := rfl
  isSealed := rfl
  config := rfl

/-- Putting the URI of a class into the table adds it and nothing else. -/
theorem uriAdded_put (r : Registry σ) (c : FailureClass) (uri : String) :
    UriAdded r { r with classUris := r.classUris.put c uri } c uri where
  entry := uriOf_eq_ok_iff.mpr (Assoc.get?_put_self c uri r.classUris)
  others c' h := by rw [uriOf, uriOf, Assoc.get?_put_of_ne h.symm]
  factories := rfl
  isSealed := rfl
  config := rfl

/-! ## Registrations -/

/-- What a turn that registers something does, where `Refused` tells the faults of the checks that
it does not pass in the order in which they are made, and `Added` the registry with what is
registered. -/
structure Registers (r : Registry σ) (t : Turn σ) (Refused : Fault → Prop)
    (Added : Registry σ → Prop) : Prop where
  /-- It fails with the fault of the first check that it does not pass. -/
  refused_iff : ∀ fault, (r.outcome t).answer = .error fault ↔ Refused fault
  /-- It succeeds if it passes all of them. -/
  accepted_iff : (r.outcome t).answer = .ok .done ↔ ∀ fault, ¬ Refused fault
  traceless : ∀ fault, Refused fault → Traceless r t fault
  /-- What is accepted changes the registry alone. -/
  added : (∀ fault, ¬ Refused fault) →
    ∃ r' d, r.outcome t = ⟨⟨r', t.store⟩, .ok .done, d⟩ ∧ Added r'

/-- What is known of the result of a registration is known of the turn. -/
theorem Registers.of_result {r : Registry σ} {t : Turn σ}
    {result : Except Fault (Registry σ × Option Diagnostic)} {Refused : Fault → Prop}
    {Added : Registry σ → Prop} (houtcome : r.outcome t = Peer.registered ⟨r, t.store⟩ result)
    (herror : ∀ fault, result = .error fault ↔ Refused fault)
    (hok : ∀ r' d, result = .ok (r', d) → Added r') : Registers r t Refused Added := by
  cases result with
  | error fault =>
    have hrefused : Refused fault := (herror fault).mp rfl
    have hfault (fault' : Fault) : Refused fault' ↔ fault = fault' := by simp [← herror]
    refine ⟨fun fault' => ?_, ?_, fun fault' h => ?_, fun h => absurd hrefused (h fault)⟩
    · simp [houtcome, Peer.registered, Peer.refuse, hfault]
    · simp [houtcome, Peer.registered, Peer.refuse, hfault]
    · obtain rfl := (hfault fault').mp h
      exact .of_outcome houtcome
  | ok added =>
    obtain ⟨r', d⟩ := added
    have hfree (fault : Fault) : ¬ Refused fault := by simp [← herror]
    refine ⟨fun fault => ?_, ?_, fun fault h => absurd h (hfree fault),
      fun _ => ⟨r', d, houtcome, hok r' d rfl⟩⟩
    · simp [houtcome, Peer.registered, hfree]
    · simp [houtcome, Peer.registered, hfree]

/-- The registration of a factory has no effect, or adds it and notes whether it replaces one. -/
theorem outcome_registerResponse (r : Registry σ) (s : Store) (uri : String)
    (factory? : Option (Factory σ)) (matching : MatchPolicy) :
    (∃ fault, r.outcome ⟨s, .registerResponse uri factory? matching⟩ =
        ⟨⟨r, s⟩, .error fault, none⟩) ∨
      ∃ factory, factory? = some factory ∧ r.outcome ⟨s, .registerResponse uri factory? matching⟩ =
        ⟨⟨{ r with factories := r.factories.insert uri factory matching }, s⟩, .ok .done,
          (r.factories.registered? uri matching).map fun _ => .replacingFactory uri matching⟩ := by
  rw [outcome, Peer.step]
  cases hresult : r.registerResponse uri factory? matching with
  | error fault => exact .inl ⟨fault, rfl⟩
  | ok added =>
    obtain ⟨r', d⟩ := added
    obtain ⟨factory, hfactory, -, -, rfl, rfl⟩ := registerResponse_eq_ok_iff.mp hresult
    exact .inr ⟨factory, hfactory, rfl⟩

/-- The registration of the URI of a class has no effect, or puts it in and notes whether it
replaces one. -/
theorem outcome_registerUri (r : Registry σ) (s : Store) (c : FailureClass) (uri : String) :
    (∃ fault, r.outcome ⟨s, .registerUri c uri⟩ = ⟨⟨r, s⟩, .error fault, none⟩) ∨
      r.outcome ⟨s, .registerUri c uri⟩ =
        ⟨⟨{ r with classUris := r.classUris.put c uri }, s⟩, .ok .done,
          (r.classUris.get? c).map fun old => .replacingUri c.name old uri⟩ := by
  rw [outcome, Peer.step]
  cases hresult : r.registerUri c uri with
  | error fault => exact .inl ⟨fault, rfl⟩
  | ok added =>
    obtain ⟨r', d⟩ := added
    obtain ⟨-, -, rfl, rfl⟩ := registerUri_eq_ok_iff.mp hresult
    exact .inr rfl

/-- In every state of a registry and of the store, a registration fails with the fault of the first
check that it does not pass and leaves no trace then, and otherwise adds its own entry and changes
nothing else. The match policy of a registration is the one that is asked for, and the exact one
when none is. -/
theorem registration_exact (r : Registry σ) (s : Store) :
    (∀ uri factory? matching, Registers r ⟨s, .registerResponse uri factory? matching⟩
        (ResponseFault r uri matching factory?) fun r' =>
          ∃ factory, factory? = some factory ∧ FactoryAdded r r' uri factory matching) ∧
      (∀ c uri, Registers r ⟨s, .registerUri c uri⟩ (UriFault r c uri) fun r' =>
        UriAdded r r' c uri) ∧
      MatchPolicy.orExact none = .exact ∧
      ∀ matching, MatchPolicy.orExact (some matching) = matching := by
  refine ⟨fun uri factory? matching => ?factory, fun c uri => ?uri, rfl, fun _ => rfl⟩
  case factory =>
    refine .of_result rfl (fun fault => registerResponse_eq_error_iff) fun r' d h => ?_
    obtain ⟨factory, rfl, -, -, rfl, -⟩ := registerResponse_eq_ok_iff.mp h
    exact ⟨factory, rfl, factoryAdded_insert r uri factory _⟩
  case uri =>
    refine .of_result rfl (fun fault => registerUri_eq_error_iff) fun r' d h => ?_
    obtain ⟨-, -, rfl, -⟩ := registerUri_eq_ok_iff.mp h
    exact uriAdded_put r c uri

/-- A sealed registry refuses a string with an empty segment as no URI, also when there is no
factory for it. -/
example : ((ofConfig ⟨"com.example", true, .console⟩ : Registry Unit).sealed.outcome
      ⟨.empty, .registerResponse "com..example" none (.orExact none)⟩).answer =
    .error (.invalidUri "com..example" ⟨some true, some .exact⟩) := rfl

end Registry

end Wamp
