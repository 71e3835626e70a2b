import Wamp.Proofs.Registry.History

/-!
# Sealed registries

Closing a registry ends its time of registrations for good. No turn can change a registry that is
sealed, whatever the operation and whatever has become of the store (`Turned.eq_of_isSealed`), so a
whole history after the closing leaves it as it was (`after_eq_self`). What is looked up then is
what was there at the closing, and every registration is refused: the checks that come before the
one for the closing are made as before, and what passes them is refused under its key
(`frozen_after`).
-/

namespace Wamp

/-- The key that a registration is refused under: the URI of a factory, the name of a class. -/
def Operation.registrationKey? {σ : Type} : Operation σ → Option String
  | .registerResponse uri _ _ => some uri
  | .registerUri c _ => some c.name
  | _ => none

namespace Registry

variable {σ : Type}

/-- The registry as it would be if it were still open. -/
def reopened (r : Registry σ) : Registry σ := { r with isSealed := false }

/-- What is left of a registry once it is closed: a later state of it answers lookups as the state
right after the closing did, and takes no registration. -/
structure Frozen (closed now : Registry σ) : Prop where
  isSealed : now.isSealed = true
  /-- Every URI has the factory, or the lack of one, that it had. -/
  factoryFor : ∀ uri, now.factoryFor uri = closed.factoryFor uri
  /-- Every class has the URI, or the lack of one, that it had. -/
  uriOf : ∀ c, now.uriOf c = closed.uriOf c
  /-- No registration succeeds, changes anything or is noted. -/
  refused : ∀ (t : Turn σ) key, t.operation.registrationKey? = some key →
    ∃ fault, now.outcome t = ⟨⟨now, t.store⟩, .error fault, none⟩
  /-- A registration that would succeed if the registry were open is refused under its key. -/
  sealed : ∀ (t : Turn σ) key answer, t.operation.registrationKey? = some key →
    (now.reopened.outcome t).answer = .ok answer →
      (now.outcome t).answer = .error (.sealed key)

/-! ## Tables -/

/-- A turn leaves a sealed registry as it is. -/
theorem Turned.eq_of_isSealed {r r' : Registry σ} {t : Turn σ} (h : Turned r t r')
    (hsealed : r.isSealed = true) : r' = r := by
  cases h with
  | same _ => rfl
  | closed _ => rw [Registry.sealed, ← hsealed]
  -- Both tables are added to only while the registry is open.
  | factory _ _ hopen => exact absurd (hopen.symm.trans hsealed) (by decide)
  | uri _ _ _ hopen => exact absurd (hopen.symm.trans hsealed) (by decide)

/-- A history leaves a sealed registry as it is. -/
theorem after_eq_self {r : Registry σ} (hsealed : r.isSealed = true) (turns : List (Turn σ)) :
    r.after turns = r := by
  induction turns with
  | nil => rfl
  | cons t turns ih =>
    have hturn : r.turn t = r := (r.turned t).eq_of_isSealed hsealed
    calc r.after (t :: turns) = (r.turn t).after turns := rfl
      _ = r.after turns := by rw [hturn]
      _ = r := ih

/-! ## Registrations -/

/-- What a sealed registry makes of the result that the open one would have: an acceptance becomes
the fault for the key, and a fault stays. -/
def barred {α : Type _} (key : String) : Except Fault α → Except Fault α
  | .ok _ => .error (.sealed key)
  | .error fault => .error fault

/-- A sealed registry checks the URI and the factory as an open one does. -/
theorem registerResponse_of_isSealed {r : Registry σ} (hsealed : r.isSealed = true) (uri : String)
    (factory? : Option (Factory σ)) (matching : MatchPolicy) :
    r.registerResponse uri factory? matching =
      barred uri (r.reopened.registerResponse uri factory? matching) := by
  have hpolicy : r.reopened.policy matching = r.policy matching := rfl
  unfold registerResponse
  rw [hpolicy]
  cases hvalid : Uri.validate (r.policy matching) uri with
  | error fault => rfl
  | ok valid =>
    obtain ⟨-, rfl⟩ := Uri.validate_eq_ok_iff.mp hvalid
    cases factory? with
    | none => rfl
    | some factory =>
      simp only [hsealed, if_true]
      rfl

/-- A sealed registry checks the URI of a class as an open one does. -/
theorem registerUri_of_isSealed {r : Registry σ} (hsealed : r.isSealed = true) (c : FailureClass)
    (uri : String) : r.registerUri c uri = barred c.name (r.reopened.registerUri c uri) := by
  have hpolicy : r.reopened.policy .exact = r.policy .exact := rfl
  unfold registerUri
  rw [hpolicy]
  cases Uri.validate (r.policy .exact) uri with
  | error fault => rfl
  | ok valid =>
    simp only [hsealed, if_true]
    rfl

/-- A registration that a sealed registry is asked for has no effect, and its answer is the one of
the open registry with an acceptance barred. -/
theorem outcome_of_isSealed {r : Registry σ} (hsealed : r.isSealed = true) {t : Turn σ}
    {key : String} (hkey : t.operation.registrationKey? = some key) :
    r.outcome t = ⟨⟨r, t.store⟩, barred key (r.reopened.outcome t).answer, none⟩ := by
  obtain ⟨store, operation⟩ := t
  cases operation with
  | registerResponse uri factory? matching =>
    obtain rfl := Option.some.inj hkey
    rw [outcome, outcome, Peer.step, Peer.step, registerResponse_of_isSealed hsealed]
    cases r.reopened.registerResponse uri factory? matching <;> rfl
  | registerUri c uri =>
    obtain rfl := Option.some.inj hkey
    rw [outcome, outcome, Peer.step, Peer.step, registerUri_of_isSealed hsealed]
    cases r.reopened.registerUri c uri <;> rfl
  -- No other operation is a registration.
  | close | factoryFor | uriOf | toFailure | toInvocation | toReply | setInvocation
    | clearAttached => cases hkey

/-- A registry is frozen from its closing on: after any sequence of operations, each with any store,
it is still sealed, answers every lookup as right after the closing, and refuses every registration,
under its key if the registry would take it were it still open. -/
theorem frozen_after (r : Registry σ) (s : Store) (later : List (Turn σ)) :
    Frozen (r.turn ⟨s, .close⟩) ((r.turn ⟨s, .close⟩).after later) := by
  have hsealed : (r.turn ⟨s, .close⟩).isSealed = true := rfl
  rw [after_eq_self hsealed]
  refine ⟨hsealed, fun _ => rfl, fun _ => rfl, fun t key hkey => ?refused,
    fun t key answer hkey hanswer => ?sealed⟩
  case refused =>
    rw [outcome_of_isSealed hsealed hkey]
    cases ((r.turn ⟨s, .close⟩).reopened.outcome t).answer with
    | ok answer => exact ⟨.sealed key, rfl⟩
    | error fault => exact ⟨fault, rfl⟩
  case sealed =>
    rw [outcome_of_isSealed hsealed hkey, hanswer]
    rfl

example : ((ofConfig .default : Registry Unit).after [⟨.empty, .close⟩]).outcome
      ⟨.empty, .registerUri ⟨.error, some ⟨1, "AppError"⟩⟩ "com.example.bad"⟩ =
    ⟨⟨(ofConfig .default).sealed, .empty⟩, .error (.sealed "AppError"), none⟩ := rfl

end Registry

end Wamp
