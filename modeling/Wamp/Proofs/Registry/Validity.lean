import Wamp.Proofs.Failure.Reachable
import Wamp.Proofs.Registry.Translation
import Wamp.Proofs.Uri.Edits

/-!
# Valid URIs and translations without a fault

A registry validates a URI once, when it is registered, under the strictness of its configuration.
`Registry.Upholds` is what the tables then hold in every state. A strict URI is a loose one and no
pattern is ever reported, so an invocation error can be made under every URI that is looked up, and
a registry finds an answer to whatever is thrown (`Registry.upholds_after`).
-/

namespace Wamp

/-! ## Strictness -/

/-- The strictness of an accepted configuration is the one that it asks for. -/
theorem RegistryConfig.strictUris_iff {runtimeErrorUri uriPolicy : Value} {sink : Sink}
    {config : RegistryConfig} (h : resolve runtimeErrorUri uriPolicy sink = .ok config) :
    config.strictUris = true ↔ uriPolicy = .string UriStrictness.strict.word := by
  unfold resolve at h
  split at h
  · cases h
  · next fields hfields =>
    obtain ⟨uri, -, rfl⟩ := map_eq_ok_iff.mp h
    obtain ⟨⟨general, word⟩, hparts, rfl⟩ := map_eq_ok_iff.mp hfields
    rw [Checked.and_eq_ok_iff, Checked.below_eq_ok_iff, Checked.below_eq_ok_iff,
      Schema.word_eq_ok_iff] at hparts
    obtain ⟨-, hword, -⟩ := hparts
    rw [decide_eq_true_eq]
    -- What is not given is loose, and what is given is the word itself.
    unfold orDefault at hword
    split at hword
    · obtain rfl : ConfigFields.default.uriPolicy = word := by simpa using hword
      simp [ConfigFields.default, UriStrictness.word]
    · obtain rfl : ConfigFields.default.uriPolicy = word := by simpa using hword
      simp [ConfigFields.default, UriStrictness.word]
    · simp [hword]

/-- An invocation error that was thrown is one of the store. -/
def Thrown.HeldBy (failure : Thrown) (s : Store) : Prop :=
  ∀ id, failure = .invocation id → ∃ e, s.invocation? id = some e

namespace Registry

variable {σ : Type}

/-! ## The tables -/

/-- The URIs that a registry holds meet a strictness. -/
structure Upholds (r : Registry σ) (strict : Bool) : Prop where
  /-- The URI of a factory is valid for the match policy that it is registered for. -/
  inbound : ∀ entry ∈ r.factories.entries,
    Uri.isUri ⟨some strict, some entry.matching⟩ entry.uri = true
  /-- The URI of a class is valid for exact matches. -/
  outbound : ∀ c uri, r.uriOf c = .ok uri → Uri.isUri ⟨some strict, some .exact⟩ uri = true
  /-- So is the URI for failures without one of their own. -/
  general : Uri.isUri ⟨some strict, some .exact⟩ r.config.runtimeErrorUri = true

/-- The URIs of the factories are valid under the policies of the registry. -/
def InboundValid (r : Registry σ) : Prop :=
  ∀ entry ∈ r.factories.entries, Uri.isUri (r.policy entry.matching) entry.uri = true

/-- A turn keeps the URIs of the factories valid. -/
theorem InboundValid.turned {r r' : Registry σ} {t : Turn σ} (h : r.InboundValid)
    (ht : Turned r t r') : r'.InboundValid := by
  cases ht with
  | same _ => exact h
  -- Neither the closing nor the URI of a class is seen in the factories.
  | closed _ => exact h
  | uri _ _ _ _ => exact h
  | @factory uri factory matching _ huri _ =>
    intro entry hentry
    rcases UriMap.mem_entries_of_mem_insert hentry with rfl | hbefore
    · exact huri
    · exact h entry hbefore

/-- A history keeps the URIs of the factories valid. -/
theorem InboundValid.after {r : Registry σ} (h : r.InboundValid) (turns : List (Turn σ)) :
    (r.after turns).InboundValid := by
  induction turns generalizing r with
  | nil => exact h
  | cons t turns ih => exact ih (h.turned (r.turned t))

/-- A registry with an accepted configuration and any history upholds the strictness that the
configuration asks for. -/
theorem upholds_of_resolve {runtimeErrorUri uriPolicy : Value} {sink : Sink}
    {config : RegistryConfig}
    (hconfig : RegistryConfig.resolve runtimeErrorUri uriPolicy sink = .ok config)
    (turns : List (Turn σ)) : ((ofConfig config).after turns).Upholds config.strictUris := by
  have hsound := (sound_ofConfig (σ := σ) hconfig).after turns
  have hempty : (ofConfig config : Registry σ).InboundValid := nofun
  have hinbound := hempty.after turns
  have hpolicy (matching : MatchPolicy) : ((ofConfig config).after turns).policy matching =
      ⟨some config.strictUris, some matching⟩ := by
    rw [policy, config_after]
    rfl
  refine ⟨fun entry hentry => ?_, fun c uri huri => ?_, ?_⟩
  · exact hpolicy entry.matching ▸ hinbound entry hentry
  · exact hpolicy .exact ▸ hsound.classUris c uri (uriOf_eq_ok_iff.mp huri)
  · exact hpolicy .exact ▸ hsound.runtimeErrorUri

/-! ## Translations -/

/-- A sound registry finds an invocation error with fields for whatever is thrown. -/
theorem Sound.exists_report {r : Registry σ} (h : r.Sound) {s : Store} (hs : s.WellFormed)
    {failure : Thrown} (hheld : failure.HeldBy s) :
    ∃ report diagnostic e, r.toInvocation s failure = .ok (report, diagnostic) ∧
      report.fields? s = some e := by
  rcases r.toInvocation_cases s failure with
    ⟨id, rfl, hreport⟩ | ⟨o, id, -, hattached, hreport⟩ | ⟨-, -, kind, -, hreport⟩
  · obtain ⟨e, he⟩ := hheld id rfl
    exact ⟨.existing id, none, e, hreport, he⟩
  · obtain ⟨e, he⟩ := hs.held (.object o.id) id hattached
    exact ⟨.existing id, none, e, hreport, he⟩
  · have hmade := InvocationError.ofArgs_eq_ok (h.isUri_reportedUri failure.class?)
      failure.positionalArgs
    exact ⟨_, _, _, hreport.trans (newReport_of_ofArgs hmade), rfl⟩

/-- A sound registry replies to whatever is thrown. -/
theorem Sound.exists_reply {r : Registry σ} (h : r.Sound) {s : Store} (hs : s.WellFormed)
    {failure : Thrown} (hheld : failure.HeldBy s) (requestId : Number) :
    ∃ reply diagnostic, Peer.step ⟨r, s⟩ (.toReply failure requestId) =
      ⟨⟨r, s⟩, .ok (.reply reply), diagnostic⟩ := by
  obtain ⟨report, diagnostic, e, hreport, he⟩ := h.exists_report hs hheld
  refine ⟨e.toErrorMessage requestId .invocation, diagnostic, ?_⟩
  rw [Peer.step, hreport, Peer.replied, he]

/-- A registry with an accepted configuration and any history holds valid URIs only, under the
strictness that the configuration asks for. In every store that a program reaches, it translates
whatever is thrown, and replies to it, without a fault. -/
theorem upholds_after {runtimeErrorUri uriPolicy : Value} {sink : Sink} {config : RegistryConfig}
    (hconfig : RegistryConfig.resolve runtimeErrorUri uriPolicy sink = .ok config)
    (turns : List (Turn σ)) {s : Store} (hs : s.Reachable) :
    ∃ strict : Bool, (strict = true ↔ uriPolicy = .string UriStrictness.strict.word) ∧
      ((ofConfig config).after turns).Upholds strict ∧
      (∀ failure fresh, ∃ store id diagnostic,
        Peer.step ⟨(ofConfig config).after turns, s⟩ (.toInvocation failure fresh) =
          ⟨⟨(ofConfig config).after turns, store⟩, .ok (.invocation id), diagnostic⟩) ∧
      ∀ failure requestId, failure.HeldBy s → ∃ reply diagnostic,
        Peer.step ⟨(ofConfig config).after turns, s⟩ (.toReply failure requestId) =
          ⟨⟨(ofConfig config).after turns, s⟩, .ok (.reply reply), diagnostic⟩ := by
  have hsound := (sound_ofConfig (σ := σ) hconfig).after turns
  refine ⟨config.strictUris, RegistryConfig.strictUris_iff hconfig,
    upholds_of_resolve hconfig turns, fun failure fresh => ?translated,
    fun failure requestId hheld => hsound.exists_reply hs.wellFormed hheld requestId⟩
  case translated =>
    obtain ⟨id, store, diagnostic, hstep, -⟩ := hsound.exists_translates s failure fresh
    exact ⟨store, id, diagnostic, hstep⟩

/-- A strict registry keeps a pattern for error messages beside the URI of a class. A function that
was attached to an invocation error is reported as that one, and an error of the class as a new
one. -/
theorem upholds_after_pattern :
    let factory : Factory Unit := ⟨"created", fun _ _ => .ok (.existing (.primitive .null))⟩
    let r : Registry Unit := (ofConfig ⟨"com.example", true, .console⟩).after
      [⟨.empty, .registerResponse "com..created" (some factory) .wildcard⟩,
        ⟨.empty, .registerUri (.predefined .error) "com.example.bad"⟩, ⟨.empty, .close⟩]
    let e : InvocationError :=
      ⟨none, "com.example.kept", none, none, none, "com.example.kept", none⟩
    let thrown : Thrown := .object ⟨⟨5⟩, .function⟩
    let s : Store := (Store.empty.setFields ⟨1⟩ e).call (.set thrown ⟨1⟩)
    s.Reachable ∧ Uri.isUri ⟨some true, some .wildcard⟩ "com..created" = true ∧
      Uri.isUri ⟨some true, some .exact⟩ "com.example.bad" = true ∧
      (∃ diagnostic, Peer.step ⟨r, s⟩ (.toReply thrown (.int 7)) =
        ⟨⟨r, s⟩, .ok (.reply (e.toErrorMessage (.int 7) .invocation)), diagnostic⟩) ∧
      ∃ store diagnostic, Peer.step ⟨r, s⟩ (.toInvocation
          (.object ⟨⟨6⟩, .failure (.ofContent (.plain .error "boom"))⟩) 2) =
        ⟨⟨r, store⟩, .ok (.invocation ⟨2⟩), diagnostic⟩ := by
  intro factory r e thrown s
  have hconfig : RegistryConfig.resolve (.string "com.example") (.string "strict") .console =
      .ok ⟨"com.example", true, .console⟩ := rfl
  have hs : s.Reachable := by
    refine .called (.made .empty ⟨1⟩ ⟨none, "com.example.kept", {}, rfl⟩) ?_
    rintro failure err ⟨⟩
    exact ⟨e, rfl⟩
  obtain ⟨strict, hstrict, hupholds, htranslated, hreplied⟩ := upholds_after hconfig
    [⟨.empty, .registerResponse "com..created" (some factory) .wildcard⟩,
      ⟨.empty, .registerUri (.predefined .error) "com.example.bad"⟩, ⟨.empty, .close⟩] hs
  obtain rfl : strict = true := hstrict.mpr rfl
  refine ⟨hs, ?pattern, ?classUri, ?attached, ?registered⟩
  case pattern => exact hupholds.inbound ⟨"com..created", .wildcard, factory⟩ (.head _)
  case classUri => exact hupholds.outbound (.predefined .error) "com.example.bad" rfl
  case attached =>
    obtain ⟨reply, diagnostic, hstep⟩ := hreplied thrown (.int 7) nofun
    obtain rfl : e.toErrorMessage (.int 7) .invocation = reply := by cases hstep; rfl
    exact ⟨diagnostic, hstep⟩
  case registered =>
    obtain ⟨store, id, diagnostic, hstep⟩ :=
      htranslated (.object ⟨⟨6⟩, .failure (.ofContent (.plain .error "boom"))⟩) 2
    obtain rfl : (⟨2⟩ : InvocationId) = id := by cases hstep; rfl
    exact ⟨store, diagnostic, hstep⟩

end Registry

end Wamp
