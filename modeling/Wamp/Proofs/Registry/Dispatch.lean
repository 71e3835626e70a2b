import Wamp.Proofs.Failure.Attachment
import Wamp.Proofs.Registry.Diagnostics
import Wamp.Proofs.Registry.Reply
import Wamp.Proofs.Uri.Registering

/-!
# What an error message is turned into

A registry takes no registration back, so its table of factories is what the registrations that
succeeded make of it (`factories_after`), and these tell the factory for a message
(`Dispatches`): one of them wins its URI, and the factory is the one that was registered last under
the URI and match policy of the winner. What this factory builds, or the fault that it fails with,
is passed on as it is (`Raises`); only where no registration applies does the message become a
failure itself. A factory is a function of the message and of the state of its application, so that
it has no part in what becomes of the tables, the attachments and the diagnostics.
-/

namespace Wamp

namespace UriMap

variable {V : Type _}

/-! ## Resolution by all registrations -/

/-- The value is the one that was registered last under a URI and match policy. -/
def LastRegistered (l : List (Entry V)) (key : String × MatchPolicy) (value : V) : Prop :=
  ∃ before, IsLast (·.key = key) l before ⟨key.1, key.2, value⟩

/-- What is registered after a list of registrations is what was registered last. -/
theorem registered?_registering_iff {l : List (Entry V)} {key : String × MatchPolicy} {value : V} :
    (registering l).registered? key.1 key.2 = some value ↔ LastRegistered l key value := by
  induction l using List.reverseRecOn with
  | nil =>
    have hnone : (registering ([] : List (Entry V))).registered? key.1 key.2 = none := by
      rw [registered?, registering, List.map_nil, ofEdits, List.foldl_nil, table_empty]
      rfl
    rw [hnone]
    constructor
    · intro h
      cases h
    · rintro ⟨before, -, after, hsplit, -⟩
      simp at hsplit
  | append_singleton l e ih =>
    rw [registering_concat]
    by_cases hkey : e.key = key
    · subst hkey
      rw [Entry.key, registered?_insert_self, Option.some.injEq]
      constructor
      · rintro rfl
        exact ⟨l, isLast_concat_self rfl⟩
      · rintro ⟨before, hlast⟩
        exact (congrArg Entry.value (hlast.eq_of_concat rfl)).symm
    · have hne : ¬ (key.1 = e.uri ∧ key.2 = e.matching) := fun h =>
        hkey (Prod.ext h.1.symm h.2.symm)
      have hskip {before : List (Entry V)} {x : Entry V} :
          IsLast (·.key = key) (l ++ [e]) before x ↔ IsLast (·.key = key) l before x :=
        isLast_concat_iff hkey
      rw [registered?_insert_of_ne _ _ _ _ hne, ih]
      exact exists_congr fun before => hskip.symm

section

variable {l : List (Entry V)} {uri : String} {e : Entry V} {value : V}

/-- Some value was registered last under the URI and match policy of a registration. -/
theorem exists_lastRegistered (he : e ∈ l) : ∃ value, LastRegistered l e.key value := by
  obtain ⟨before, ⟨uri, policy, value⟩, hlast⟩ := exists_isLast (p := (·.key = e.key)) he rfl
  obtain ⟨rfl, rfl⟩ := Prod.mk.inj hlast.1
  exact ⟨value, before, hlast⟩

/-- A URI that some registration wins resolves to the value registered last for the winner. -/
theorem Wins.resolve_registering (h : Wins l uri e) (hlast : LastRegistered l e.key value) :
    (registering l).resolve uri = .ok value := by
  obtain ⟨first?, live?, hfirst, hlive, hkeys⟩ := exists_scanned_registering l uri
  obtain ⟨a, rfl⟩ := hfirst.exists_eq_some h.mem h.applies
  obtain ⟨b, rfl, hkey⟩ := Option.map_eq_some_iff.mp hkeys.symm
  have hregistered : (registering l).registered? e.key.1 e.key.2 = some b.value := by
    rw [h.key_eq hfirst.wins, ← hkey]
    exact (distinct_registering l).registered?_eq_some_iff.mpr hlive.mem
  rw [registered?_registering_iff.mpr hlast] at hregistered
  obtain rfl := Option.some.inj hregistered
  exact (distinct_registering l).resolve_eq_resultOf hlive

/-- A URI that no registration applies to does not resolve. -/
theorem resolve_registering_eq_error (h : ∀ e ∈ l, ¬ e.Applies uri) :
    (registering l).resolve uri = .error (.noEntry uri) := by
  obtain ⟨first?, live?, hfirst, hlive, hkeys⟩ := exists_scanned_registering l uri
  obtain rfl := hfirst.eq_none h
  obtain rfl := Option.map_eq_none_iff.mp hkeys.symm
  exact (distinct_registering l).resolve_eq_resultOf hlive

end

end UriMap

namespace Registry

variable {σ : Type}

/-! ## The registrations of a history -/

/-- The entry that a turn adds to the table of factories, if it is such a registration and
succeeds. -/
def responseGiven? (r : Registry σ) (t : Turn σ) : Option (UriMap.Entry (Factory σ)) :=
  match t.operation, (r.outcome t).answer with
  | .registerResponse uri (some factory) matching, .ok _ => some ⟨uri, matching, factory⟩
  | _, _ => none

/-- The entries of the registrations of factories that succeed, in the order of the turns. -/
def registeredResponses (r : Registry σ) (turns : List (Turn σ)) :
    List (UriMap.Entry (Factory σ)) :=
  (r.trace turns).filterMap fun (r, t) => r.responseGiven? t

/-- A turn adds the entry that it gives to the table of factories and otherwise leaves the table. -/
theorem factories_turn (r : Registry σ) (t : Turn σ) :
    (r.responseGiven? t = none ∧ (r.turn t).factories = r.factories) ∨
      ∃ e, r.responseGiven? t = some e ∧
        (r.turn t).factories = r.factories.insert e.uri e.value e.matching := by
  obtain ⟨s, operation⟩ := t
  cases operation with
  | registerResponse uri factory? matching =>
    rcases r.outcome_registerResponse s uri factory? matching with
      ⟨fault, hout⟩ | ⟨factory, rfl, hout⟩
    · refine .inl ⟨?_, by rw [turn, hout]⟩
      cases factory? <;> simp [responseGiven?, hout]
    · refine .inr ⟨⟨uri, matching, factory⟩, ?_, by rw [turn, hout]⟩
      simp [responseGiven?, hout]
  | registerUri | close | factoryFor | uriOf | toFailure | toInvocation | toReply | setInvocation
  | clearAttached =>
    refine .inl ⟨rfl, (r.turned _).factories_eq fun uri factory? matching heq => ?_⟩
    cases heq

/-- The table of factories of a registry is what its history has registered. -/
theorem factories_after (config : RegistryConfig) (turns : List (Turn σ)) :
    ((ofConfig config).after turns).factories =
      .registering ((ofConfig config).registeredResponses turns) := by
  induction turns using List.reverseRecOn with
  | nil => rfl
  | append_singleton turns t ih =>
    rw [after_concat, registeredResponses, filterMap_trace_concat, ← registeredResponses]
    rcases ((ofConfig config).after turns).factories_turn t with
      ⟨hgiven, hfactories⟩ | ⟨e, hgiven, hfactories⟩
    · rw [hfactories, ih, hgiven, Option.toList_none, List.append_nil]
    · rw [hfactories, ih, hgiven, Option.toList_some, UriMap.registering_concat]

/-! ## Dispatch -/

/-- What a registry turns an error message into, where `given` are the registrations of factories
that succeeded. -/
structure Dispatches (r : Registry σ) (given : List (UriMap.Entry (Factory σ))) (s : Store)
    (m : ErrorMessage) (state : σ) (fresh : Nat) : Prop where
  /-- Either some registration wins the URI of the message, and then there is one of the same URI
  and match policy that is the last, or no registration applies. -/
  decided : (∃ e factory, UriMap.Wins given m.error e ∧
      UriMap.LastRegistered given e.key factory) ∨ ∀ e ∈ given, ¬ e.Applies m.error
  /-- What the factory that was registered last for the winner returns for the message itself is
  raised, be it something that is there already, a new object or a new invocation error. -/
  built : ∀ e factory, UriMap.Wins given m.error e → UriMap.LastRegistered given e.key factory →
    Raises r s fresh (factory.build state m) (r.outcome ⟨s, .toFailure m state fresh⟩)
  /-- If this factory fails, its fault is passed on, whatever it is, and nothing is raised. -/
  failed : ∀ e factory fault, UriMap.Wins given m.error e →
    UriMap.LastRegistered given e.key factory → factory.build state m = .error fault →
    r.outcome ⟨s, .toFailure m state fresh⟩ = ⟨⟨r, s⟩, .error fault, none⟩
  /-- Where no registration applies there is no factory, and the failure to raise is made of the
  message. -/
  wrapped : (∀ e ∈ given, ¬ e.Applies m.error) →
    r.factoryFor m.error = .error (.noEntry m.error) ∧
      r.outcome ⟨s, .toFailure m state fresh⟩ = ⟨⟨r, s⟩,
        .ok (.failure (.object ⟨⟨fresh⟩, .failure (.ofContent (.response m))⟩)), none⟩
  /-- The tables and the attachments stay as they are, and nothing is noted. -/
  unchanged : (r.outcome ⟨s, .toFailure m state fresh⟩).peer.registry = r ∧
    (r.outcome ⟨s, .toFailure m state fresh⟩).peer.store.attachments = s.attachments ∧
      (r.outcome ⟨s, .toFailure m state fresh⟩).diagnostic = none

/-- Whatever the history of a registry, it turns every error message into what the factory builds
that was last registered with success for the winner of its URI. -/
theorem dispatches_after (config : RegistryConfig) (turns : List (Turn σ)) (s : Store)
    (m : ErrorMessage) (state : σ) (fresh : Nat) :
    Dispatches ((ofConfig config).after turns) ((ofConfig config).registeredResponses turns) s m
      state fresh := by
  have hfactories := factories_after config turns
  generalize (ofConfig config).after turns = r at hfactories ⊢
  generalize (ofConfig config).registeredResponses turns = given at hfactories ⊢
  have hfactoryFor : r.factoryFor m.error = (UriMap.registering given).resolve m.error := by
    rw [factoryFor, hfactories]
  have hraises {e : UriMap.Entry (Factory σ)} {factory : Factory σ}
      (hwins : UriMap.Wins given m.error e)
      (hlast : UriMap.LastRegistered given e.key factory) :
      Raises r s fresh (factory.build state m) (r.outcome ⟨s, .toFailure m state fresh⟩) :=
    raises_of_factoryFor (hfactoryFor.trans (hwins.resolve_registering hlast)) s state fresh
  refine ⟨?decided, fun e factory hwins hlast => hraises hwins hlast,
    fun e factory fault hwins hlast hfault => ?failed, fun hnone => ?wrapped,
    (r.raises_toFailure s m state fresh).unchanged⟩
  case decided =>
    obtain ⟨best?, hbest⟩ :=
      UriMap.exists_scanned (UriMap.Entry.Applies m.error) (UriMap.Entry.merit m.error) given
    cases best? with
    | none => exact .inr hbest
    | some e =>
      obtain ⟨factory, hlast⟩ := UriMap.exists_lastRegistered hbest.mem
      exact .inl ⟨e, factory, hbest.wins, hlast⟩
  case failed => exact (hfault ▸ hraises hwins hlast).eq_of_error
  case wrapped =>
    have hmiss := hfactoryFor.trans (UriMap.resolve_registering_eq_error hnone)
    exact ⟨hmiss, step_toFailure_of_factoryFor_error hmiss s state fresh⟩

/-- A factory fails as a lookup does that finds nothing, and the message does not become a
failure. -/
example : (((ofConfig .default : Registry Unit).after [⟨.empty, .registerResponse "a"
      (some ⟨"missing", fun _ m => .error (.noEntry m.error)⟩) .exact⟩]).outcome
        ⟨.empty, .toFailure ⟨.invocation, .int 5, [], "a", [], []⟩ () 7⟩).answer =
    .error (.noEntry "a") := rfl

end Registry

end Wamp
