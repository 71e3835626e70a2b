import Wamp.Proofs.Registry.Reply

/-!
# Translation of failures

The invocation error to report for something thrown comes from the first of four sources that
applies: it is one itself, it is attached to one, a URI is registered for its exact class, or it is
reported under the general URI. `Registry.Translates` lists these in the order of priority, with all
that comes of each, and a registry translates so in every state (`Registry.Reachable.translates`).
-/

namespace Wamp

/-- The invocation error that is made for a failure: a URI and positional arguments, if there are
any, and nothing else. -/
def InvocationError.reporting (uri : String) (args : List Value) : InvocationError where
  derived := none
  uri := uri
  args := if args = [] then none else some args
  kwargs := none
  details := none
  message := if args = [] then uri else uri ++ " " ++ commaSeparated (args.map Value.plain)
  cause := none

/-- Every URI can be reported with any arguments. -/
theorem InvocationError.ofArgs_eq_ok {uri : String} (huri : Uri.isUri .default uri = true)
    (args : List Value) : ofArgs uri args = .ok (reporting uri args) := by
  have hvalid := Uri.validate_eq_ok_iff.mpr ⟨huri, rfl⟩
  rw [ofArgs, make, ofClass, hvalid]
  cases args with
  | nil => rfl
  | cons v rest => rfl

namespace Registry

variable {σ : Type}

/-- What a registry makes of something thrown while the store is `s`: the identity of the invocation
error, the store afterwards, and the diagnostic if there is one. -/
inductive Translates (r : Registry σ) (s : Store) (fresh : Nat) :
    Thrown → InvocationId → Store → Option Diagnostic → Prop
  /-- An invocation error is reported itself. -/
  | itself (id : InvocationId) : Translates r s fresh (.invocation id) id s none
  /-- An object is reported as what it is attached to. -/
  | attached {o : Object} {id : InvocationId} (hattached : s.attached? (.object o) = some id) :
      Translates r s fresh (.object o) id s none
  /-- Anything else is reported under the URI of its exact class. -/
  | registered {failure : Thrown} {c : FailureClass} {kind uri : String} {args : List Value}
      (hfree : s.attached? failure = none) (hpresents : failure.Presents (some c) kind args)
      (huri : r.uriOf c = .ok uri) :
      Translates r s fresh failure ⟨fresh⟩ (s.setFields ⟨fresh⟩ (.reporting uri args)) none
  /-- What has no class, or a class without a URI, is reported under the general URI. -/
  | general {failure : Thrown} {c? : Option FailureClass} {kind : String} {args : List Value}
      (hfree : s.attached? failure = none) (hpresents : failure.Presents c? kind args)
      (hmiss : ∀ c, c? = some c → r.uriOf c = .error (.noEntry c.name)) :
      Translates r s fresh failure ⟨fresh⟩
        (s.setFields ⟨fresh⟩ (.reporting r.config.runtimeErrorUri args))
        (some (.noUri kind r.config.runtimeErrorUri))

/-- The URI of a class is looked up in the table of the registry. -/
theorem uriOf_eq_ok_iff {r : Registry σ} {c : FailureClass} {uri : String} :
    r.uriOf c = .ok uri ↔ r.classUris.get? c = some uri := by
  unfold uriOf
  cases r.classUris.get? c with
  | some found => simp
  | none => simp

/-- A class without a URI is the fault that the lookup of its URI ends with. -/
theorem uriOf_eq_error_iff {r : Registry σ} {c : FailureClass} :
    r.uriOf c = .error (.noEntry c.name) ↔ r.classUris.get? c = none := by
  unfold uriOf
  cases r.classUris.get? c with
  | some found => simp
  | none => simp

/-- A sound registry makes a new invocation error for every failure: under the URI of its class if
there is one, and otherwise under the general one with a diagnostic. -/
theorem Sound.translates_new {r : Registry σ} (h : r.Sound) {s : Store} {failure : Thrown}
    {c? : Option FailureClass} {kind : String} {args : List Value}
    (hfree : s.attached? failure = none) (hpresents : failure.Presents c? kind args) (fresh : Nat) :
    ∃ uri diagnostic,
      r.newReport c? kind args = .ok (.new (.reporting uri args), diagnostic) ∧
        Translates r s fresh failure ⟨fresh⟩ (s.setFields ⟨fresh⟩ (.reporting uri args))
          diagnostic := by
  have hvalid := InvocationError.ofArgs_eq_ok (h.isUri_reportedUri c?) args
  refine ⟨r.reportedUri c?, (r.uriFor c? kind).2, newReport_of_ofArgs hvalid, ?_⟩
  cases hfound : c?.bind r.classUris.get? with
  | some uri =>
    obtain ⟨c, rfl, hc⟩ := Option.bind_eq_some_iff.mp hfound
    have huri : r.reportedUri (some c) = uri := by rw [reportedUri, hfound, Option.getD_some]
    have hsilent : (r.uriFor (some c) kind).2 = none := by rw [uriFor, hfound]
    rw [huri, hsilent]
    exact .registered hfree hpresents (uriOf_eq_ok_iff.mpr hc)
  | none =>
    have huri : r.reportedUri c? = r.config.runtimeErrorUri := by
      rw [reportedUri, hfound, Option.getD_none]
    have hlogged : (r.uriFor c? kind).2 = some (.noUri kind r.config.runtimeErrorUri) := by
      rw [uriFor, hfound]
    rw [huri, hlogged]
    refine .general hfree hpresents fun c hc => uriOf_eq_error_iff.mpr ?_
    rw [hc, Option.bind_some] at hfound
    exact hfound

/-- A sound registry translates whatever is thrown. -/
theorem Sound.exists_translates {r : Registry σ} (h : r.Sound) (s : Store) (failure : Thrown)
    (fresh : Nat) :
    ∃ id store diagnostic,
      Peer.step ⟨r, s⟩ (.toInvocation failure fresh) =
          ⟨⟨r, store⟩, .ok (.invocation id), diagnostic⟩ ∧
        Translates r s fresh failure id store diagnostic := by
  rcases r.toInvocation_cases s failure with
    ⟨id, rfl, -⟩ | ⟨o, id, rfl, hattached, hreport⟩ | ⟨hfree, -, kind, hpresents, hreport⟩
  · exact ⟨id, s, none, rfl, .itself id⟩
  · refine ⟨id, s, none, ?_, .attached hattached⟩
    rw [Peer.step, hreport]
    rfl
  · obtain ⟨uri, diagnostic, hresult, htranslates⟩ := h.translates_new hfree hpresents fresh
    refine ⟨_, _, diagnostic, ?_, htranslates⟩
    rw [Peer.step, hreport, hresult]
    rfl

/-- A translation changes no attachment. -/
theorem Translates.attachments_eq {r : Registry σ} {s store : Store} {fresh : Nat}
    {failure : Thrown} {id : InvocationId} {diagnostic : Option Diagnostic}
    (h : Translates r s fresh failure id store diagnostic) :
    store.attachments = s.attachments := by
  cases h <;> rfl

/-- A translation changes no invocation error but the one that it makes. -/
theorem Translates.invocation?_eq {r : Registry σ} {s store : Store} {fresh : Nat}
    {failure : Thrown} {id : InvocationId} {diagnostic : Option Diagnostic}
    (h : Translates r s fresh failure id store diagnostic) {other : InvocationId}
    (hother : other ≠ ⟨fresh⟩) : store.invocation? other = s.invocation? other := by
  cases h with
  | itself | attached => rfl
  | registered | general => exact Assoc.get?_put_of_ne hother.symm _ _

/-- A registry translates whatever is thrown, in every state and with any store, by the first source
that applies. It stays as it is, and so do all attachments and all invocation errors that were
there. The invocation error that a translation ends with is translated to itself, without a
diagnostic. -/
theorem Reachable.translates {r : Registry σ} (h : r.Reachable) (s : Store) (failure : Thrown)
    (fresh : Nat) :
    ∃ id store diagnostic,
      Peer.step ⟨r, s⟩ (.toInvocation failure fresh) =
          ⟨⟨r, store⟩, .ok (.invocation id), diagnostic⟩ ∧
        Translates r s fresh failure id store diagnostic ∧
        store.attachments = s.attachments ∧
        (∀ other, other ≠ ⟨fresh⟩ → store.invocation? other = s.invocation? other) ∧
        ∀ later, Peer.step ⟨r, store⟩ (.toInvocation (.invocation id) later) =
          ⟨⟨r, store⟩, .ok (.invocation id), none⟩ := by
  obtain ⟨id, store, diagnostic, hstep, htranslates⟩ := h.sound.exists_translates s failure fresh
  exact ⟨id, store, diagnostic, hstep, htranslates, htranslates.attachments_eq,
    fun other hother => htranslates.invocation?_eq hother, fun later => rfl⟩

/-- An error of a class that is derived from one with a URI, with a message and an empty list of
arguments of its own, is reported under the general URI and without arguments, while another object
stays attached to what it is attached to. -/
theorem Reachable.translates_derived :
    Reachable ((ofConfig .default : Registry Unit).after
        [⟨.empty, .registerUri (.predefined .error) "com.example.bad"⟩, ⟨.empty, .close⟩]) ∧
      ∃ store, Peer.step ⟨(ofConfig .default : Registry Unit).after
            [⟨.empty, .registerUri (.predefined .error) "com.example.bad"⟩, ⟨.empty, .close⟩],
          ⟨[(⟨3⟩, .reporting "com.example.kept" [])], [(.object ⟨2⟩, ⟨3⟩)]⟩⟩
          (.toInvocation (.object ⟨⟨1⟩, .failure ⟨.plain .error "boom", some ⟨4, "AppError"⟩, none,
            some (.list [])⟩⟩) 7) =
          ⟨⟨(ofConfig .default : Registry Unit).after
            [⟨.empty, .registerUri (.predefined .error) "com.example.bad"⟩, ⟨.empty, .close⟩],
            store⟩, .ok (.invocation ⟨7⟩), some (.noUri "AppError" "wamp.error.runtime_error")⟩ ∧
        store.invocation? ⟨7⟩ = some ⟨none, "wamp.error.runtime_error", none, none, none,
          "wamp.error.runtime_error", none⟩ ∧
        store.attachments = [(.object ⟨2⟩, ⟨3⟩)] := by
  have hreachable : Reachable ((ofConfig .default : Registry Unit).after
      [⟨.empty, .registerUri (.predefined .error) "com.example.bad"⟩, ⟨.empty, .close⟩]) :=
    ⟨.undefined, .undefined, .console, .default, _, RegistryConfig.resolve_undefined, rfl⟩
  obtain ⟨id, store, diagnostic, hstep, htranslates, hattachments, -, -⟩ :=
    hreachable.translates ⟨[(⟨3⟩, .reporting "com.example.kept" [])], [(.object ⟨2⟩, ⟨3⟩)]⟩
      (.object ⟨⟨1⟩, .failure ⟨.plain .error "boom", some ⟨4, "AppError"⟩, none,
        some (.list [])⟩⟩) 7
  refine ⟨hreachable, store, ?_⟩
  cases htranslates with
  | attached hattached => cases hattached
  | registered hfree hpresents huri =>
    cases hpresents
    cases huri
  | general hfree hpresents hmiss =>
    cases hpresents with
    | failure hargs =>
      -- The empty list may travel, so the message is not among what the error reports.
      cases hargs with
      | args hitems hwire =>
        cases hitems
        exact ⟨hstep, Assoc.get?_put_self _ _ _, hattachments⟩
      | message hmiss => exact absurd nofun (hmiss [] rfl)
      | nothing hmiss => exact absurd nofun (hmiss [] rfl)

end Registry

end Wamp
