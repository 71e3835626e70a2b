import Mathlib.Logic.Function.Basic
import Wamp.Proofs.Registry.Agreement

/-!
# Registries that share a store

The registries of an application have tables of their own and one store in common. Of what one of
them does, only the calls that set or clear what is to be reported can be noticed through another
one, unless an invocation error that it made is handed over. So the operations of one registry come
out the same when all that is asked of the others is left out but for those calls, and what a call
sets is reported by all of them alike (`Registries.undisturbed`). The two runs are compared state by
state: the registry is the same in both, and their stores agree off what the others make.
-/

namespace Wamp

/-- The registries of an application and the store that they share. -/
structure Registries (ι σ : Type) where
  registry : ι → Registry σ
  store : Store

/-- An operation and the registry that it is asked of. -/
structure Request (ι σ : Type) where
  recipient : ι
  operation : Operation σ

namespace Registries

variable {ι σ : Type}

/-- What comes of a request. -/
def outcome (p : Registries ι σ) (q : Request ι σ) : Outcome σ :=
  Peer.step ⟨p.registry q.recipient, p.store⟩ q.operation

/-- All registries report the invocation error for a failure, in the store as it is and without a
diagnostic. -/
def Report (p : Registries ι σ) (failure : Thrown) (id : InvocationId) : Prop :=
  ∀ i fresh, p.outcome ⟨i, .toInvocation failure fresh⟩ =
    ⟨⟨p.registry i, p.store⟩, .ok (.invocation id), none⟩

/-- All registries report what an object is attached to. -/
theorem report_of_attached {p : Registries ι σ} {o : Object} {id : InvocationId}
    (h : p.store.attached? (.object o) = some id) : p.Report (.object o) id :=
  fun i fresh => Store.step_toInvocation_of_attached (p.registry i) h fresh

/-- A registry is the same in two states, and their stores agree. -/
structure AlikeAt (hidden : InvocationId → Prop) (i : ι) (p p' : Registries ι σ) : Prop where
  registry : p.registry i = p'.registry i
  store : p.store.AgreeOff hidden p'.store

/-- A request asked of the registry comes out alike. -/
theorem AlikeAt.alike_outcome {hidden : InvocationId → Prop} {i : ι} {p p' : Registries ι σ}
    {q : Request ι σ} (h : AlikeAt hidden i p p') (hq : q.recipient = i)
    (hgiven : ∀ id, hidden id → ¬ q.operation.Given id) :
    Outcome.Alike hidden (p.outcome q) (p'.outcome q) := by
  unfold outcome
  rw [hq, ← h.registry]
  exact h.store.step (p.registry i) hgiven

/-! ## Runs -/

variable [DecidableEq ι]

/-- The registries and the store after a request. -/
def step (p : Registries ι σ) (q : Request ι σ) : Registries ι σ :=
  ⟨Function.update p.registry q.recipient (p.outcome q).peer.registry, (p.outcome q).peer.store⟩

/-- The registries and the store after a sequence of requests. -/
def after (p : Registries ι σ) (requests : List (Request ι σ)) : Registries ι σ :=
  requests.foldl step p

/-- What comes of those of a sequence of requests that are asked of one registry. -/
def outcomesAt (p : Registries ι σ) (i : ι) : List (Request ι σ) → List (Outcome σ)
  | [] => []
  | q :: requests =>
    if q.recipient = i then p.outcome q :: (p.step q).outcomesAt i requests
    else (p.step q).outcomesAt i requests

/-- The requests that are left when all that is asked of other registries is left out, but for the
calls that set or clear what is to be reported. -/
def kept (i : ι) (requests : List (Request ι σ)) : List (Request ι σ) :=
  requests.filter fun q => q.recipient = i ∨ q.operation.attachmentCall?.isSome

/-- A sequence of requests lets a registry other than the given one make an invocation error. -/
inductive OthersMake (i : ι) : Registries ι σ → List (Request ι σ) → InvocationId → Prop
  | now {p : Registries ι σ} {q : Request ι σ} {requests : List (Request ι σ)} {id : InvocationId}
      {e : InvocationError} (hother : q.recipient ≠ i)
      (hmakes : (p.registry q.recipient).Makes p.store q.operation id e) :
      OthersMake i p (q :: requests) id
  | later {p : Registries ι σ} {q : Request ι σ} {requests : List (Request ι σ)}
      {id : InvocationId} (h : OthersMake i (p.step q) requests id) :
      OthersMake i p (q :: requests) id

/-- The requests asked of other registries make no difference to a registry, but for the calls that
set or clear what is to be reported. -/
structure Undisturbed (p : Registries ι σ) (i : ι) (requests : List (Request ι σ)) : Prop where
  /-- Each operation comes out the same. -/
  outcomes : List.Forall₂ (Outcome.Alike (OthersMake i p requests)) (p.outcomesAt i requests)
    (p.outcomesAt i (kept i requests))
  /-- The registry ends up with the same tables. -/
  registry : (p.after requests).registry i = (p.after (kept i requests)).registry i
  /-- The same diagnostics are noted, in the same order. -/
  log : (p.outcomesAt i requests).filterMap (·.diagnostic) =
    (p.outcomesAt i (kept i requests)).filterMap (·.diagnostic)

/-- What is set through one registry is reported by all of them. -/
structure Shared (p : Registries ι σ) : Prop where
  /-- The invocation error that an object is attached to is reported for it until the next call
  about the object, whatever else is asked of any registry. -/
  attached : ∀ (i : ι) (o : Object) (err : InvocationId) (later : List (Request ι σ)),
    (∀ q ∈ later, ∀ c, q.operation.attachmentCall? = some c → ¬ c.IsAbout o.id) →
      ((p.step ⟨i, .setInvocation (.object o) err⟩).after later).Report (.object o) err
  /-- An invocation error that is overwritten has the URI, the arguments and the details of the
  other one, with the message that is made from these, and keeps its class and its cause. With these
  fields it is reported for itself and for all that is attached to it, until it is overwritten
  again. -/
  overwritten : ∀ (i : ι) (x err : InvocationId) (e e' : InvocationError)
    (later : List (Request ι σ)) (now : Registries ι σ), p.store.invocation? x = some e →
    p.store.invocation? err = some e' →
    (∀ q ∈ later, q.operation.newId? ≠ some x ∧
      ∀ c, q.operation.attachmentCall? = some c → ¬ c.Overwrites x) →
    now = (p.step ⟨i, .setInvocation (.invocation x) err⟩).after later →
      now.store.invocation? x = some
          { derived := e.derived
            uri := e'.uri
            args := e'.args
            kwargs := e'.kwargs
            details := e'.details
            message := InvocationError.render e'.uri e'.args
            cause := e.cause } ∧
        now.Report (.invocation x) x ∧
        ∀ o, now.store.attached? (.object o) = some x → now.Report (.object o) x

/-! ## What other registries do not disturb -/

section

variable {p p' : Registries ι σ} {i : ι} {q : Request ι σ} {hidden : InvocationId → Prop}

/-- A request leaves the registry that it is asked of as its outcome says. -/
theorem registry_step_self (p : Registries ι σ) (q : Request ι σ) :
    (p.step q).registry q.recipient = (p.outcome q).peer.registry :=
  Function.update_self _ _ _

/-- A request leaves the registries that it is not asked of. -/
theorem registry_step_of_ne (h : q.recipient ≠ i) : (p.step q).registry i = p.registry i :=
  Function.update_of_ne (Ne.symm h) _ _

/-- A request asked of the registry leaves it alike. -/
theorem AlikeAt.own (h : AlikeAt hidden i p p') (hq : q.recipient = i)
    (hgiven : ∀ id, hidden id → ¬ q.operation.Given id) :
    AlikeAt hidden i (p.step q) (p'.step q) := by
  have halike := h.alike_outcome hq hgiven
  refine ⟨?_, halike.store⟩
  rw [← hq, registry_step_self, registry_step_self]
  exact halike.registry

/-- A call made through another registry leaves the registry alike. -/
theorem AlikeAt.called (h : AlikeAt hidden i p p') (hq : q.recipient ≠ i) {c : AttachmentCall}
    (hc : q.operation.attachmentCall? = some c)
    (hgiven : ∀ id, hidden id → ¬ q.operation.Given id) :
    AlikeAt hidden i (p.step q) (p'.step q) := by
  have hop := Operation.eq_of_attachmentCall? hc
  have hstore (p : Registries ι σ) : (p.step q).store = p.store.call c := by
    unfold step outcome
    rw [hop]
    cases c <;> rfl
  refine ⟨?_, ?_⟩
  · rw [registry_step_of_ne hq, registry_step_of_ne hq, h.registry]
  · rw [hstore, hstore]
    rw [hop] at hgiven
    exact h.store.call hgiven

/-- Whatever else is asked of another registry is not noticed if what it makes is hidden. -/
theorem AlikeAt.dropped (h : AlikeAt hidden i p p') (hq : q.recipient ≠ i)
    (hc : q.operation.attachmentCall? = none)
    (hmakes : ∀ id e, (p.registry q.recipient).Makes p.store q.operation id e → hidden id) :
    AlikeAt hidden i (p.step q) p' := by
  refine ⟨(registry_step_of_ne hq).trans h.registry, ?_⟩
  exact h.store.stepped (Store.stepped _ p.store q.operation) hc hmakes

/-- What is asked of a registry comes out alike in both runs, and leaves it alike. -/
theorem AlikeAt.run (h : AlikeAt hidden i p p') {requests : List (Request ι σ)}
    (hmakes : ∀ id, OthersMake i p requests id → hidden id)
    (hgiven : ∀ q ∈ requests, ∀ id, hidden id → ¬ q.operation.Given id) :
    List.Forall₂ (Outcome.Alike hidden) (p.outcomesAt i requests)
        (p'.outcomesAt i (kept i requests)) ∧
      AlikeAt hidden i (p.after requests) (p'.after (kept i requests)) := by
  induction requests generalizing p p' with
  | nil => exact ⟨.nil, h⟩
  | cons q requests ih =>
    rw [List.forall_mem_cons] at hgiven
    obtain ⟨hnow, hlater⟩ := hgiven
    have hmakesLater : ∀ id, OthersMake i (p.step q) requests id → hidden id :=
      fun id hid => hmakes id (.later hid)
    by_cases hq : q.recipient = i
    · have hkept : kept i (q :: requests) = q :: kept i requests :=
        List.filter_cons_of_pos (by simp [hq])
      obtain ⟨houtcomes, hafter⟩ := ih (h.own hq hnow) hmakesLater hlater
      rw [hkept, outcomesAt, outcomesAt, if_pos hq, if_pos hq]
      exact ⟨.cons (h.alike_outcome hq hnow) houtcomes, hafter⟩
    · rw [outcomesAt, if_neg hq]
      cases hc : q.operation.attachmentCall? with
      | some c =>
        have hkept : kept i (q :: requests) = q :: kept i requests :=
          List.filter_cons_of_pos (by simp [hc])
        rw [hkept, outcomesAt, if_neg hq]
        exact ih (h.called hq hc hnow) hmakesLater hlater
      | none =>
        have hkept : kept i (q :: requests) = kept i requests :=
          List.filter_cons_of_neg (by simp [hq, hc])
        rw [hkept]
        exact ih (h.dropped hq hc fun id e hmade => hmakes id (.now hq hmade)) hmakesLater hlater

end

/-- What another registry makes has an identity that one of the requests to it is given for that. -/
theorem OthersMake.exists_newId? {i : ι} {p : Registries ι σ} {requests : List (Request ι σ)}
    {id : InvocationId} (h : OthersMake i p requests id) :
    ∃ q ∈ requests, q.recipient ≠ i ∧ q.operation.newId? = some id := by
  induction h with
  | now hother hmakes => exact ⟨_, List.mem_cons_self, hother, hmakes.newId?⟩
  | later _ ih =>
    obtain ⟨q, hq, hnew⟩ := ih
    exact ⟨q, List.mem_cons_of_mem _ hq, hnew⟩

/-- Alike outcomes note the same diagnostics. -/
theorem filterMap_diagnostic_eq {hidden : InvocationId → Prop} {os os' : List (Outcome σ)}
    (h : List.Forall₂ (Outcome.Alike hidden) os os') :
    os.filterMap (·.diagnostic) = os'.filterMap (·.diagnostic) := by
  induction h with
  | nil => rfl
  | cons halike _ ih => rw [List.filterMap_cons, List.filterMap_cons, halike.diagnostic, ih]

/-! ## What all registries see -/

section

variable {p : Registries ι σ} {later : List (Request ι σ)}

/-- An object stays attached through requests that do not set or clear anything for it. -/
theorem attached?_after {o : Object}
    (h : ∀ q ∈ later, ∀ c, q.operation.attachmentCall? = some c → ¬ c.IsAbout o.id) :
    (p.after later).store.attached? (.object o) = p.store.attached? (.object o) := by
  induction later generalizing p with
  | nil => rfl
  | cons q later ih =>
    rw [List.forall_mem_cons] at h
    exact (ih h.2).trans ((Store.stepped _ p.store q.operation).attached?_eq h.1)

/-- An invocation error keeps its fields through requests that neither overwrite it nor make another
one under its identity. -/
theorem invocation?_after {x : InvocationId}
    (h : ∀ q ∈ later, q.operation.newId? ≠ some x ∧
      ∀ c, q.operation.attachmentCall? = some c → ¬ c.Overwrites x) :
    (p.after later).store.invocation? x = p.store.invocation? x := by
  induction later generalizing p with
  | nil => rfl
  | cons q later ih =>
    rw [List.forall_mem_cons] at h
    obtain ⟨⟨hnew, hcall⟩, hlater⟩ := h
    exact (ih hlater).trans ((Store.stepped _ p.store q.operation).invocation?_eq hcall hnew)

/-- What is set through any registry is reported by all of them. -/
theorem shared (p : Registries ι σ) : p.Shared where
  attached i o err later hlater := by
    have hset : (p.step ⟨i, .setInvocation (.object o) err⟩).store.attached? (.object o) =
        some err := Store.attached?_call_set p.store o o.body err
    exact report_of_attached ((attached?_after hlater).trans hset)
  overwritten i x err e e' later now hx herr hlater hnow := by
    have hset : (p.step ⟨i, .setInvocation (.invocation x) err⟩).store.invocation? x =
        some (e.overwriteWith e') := Store.invocation?_call_set hx herr
    rw [hnow]
    exact ⟨(invocation?_after hlater).trans hset, fun _ _ => rfl, fun o => report_of_attached⟩

end

/-- Whatever is asked of the registries of an application, in any order: as long as nothing is given
an invocation error that another registry has made, a registry ends up with the tables, the results
and the diagnostics that it has when the others are left out but for their calls. What is set
through any registry after that is reported by all of them. -/
theorem undisturbed (p : Registries ι σ) (i : ι) (requests : List (Request ι σ))
    (hnew : ∀ o id, p.store.attachments.get? (.object o) = some id →
      ¬ OthersMake i p requests id)
    (hgiven : ∀ q ∈ requests, ∀ id, OthersMake i p requests id → ¬ q.operation.Given id) :
    p.Undisturbed i requests ∧ (p.after requests).Shared := by
  have hsame : AlikeAt (OthersMake i p requests) i p p := ⟨rfl, .refl hnew⟩
  obtain ⟨houtcomes, hafter⟩ := hsame.run (fun _ hid => hid) hgiven
  exact ⟨⟨houtcomes, hafter.registry, filterMap_diagnostic_eq houtcomes⟩, shared _⟩

/-- One registry makes an invocation error for a string, registers a URI and is closed, attaches an
object to another invocation error and overwrites that one; the other registry translates the object
in between. When the invocation error is overwritten once more after that, it is seen with the
fields of a third one and with its own class and cause, and reported for the object still. -/
theorem undisturbed_overwritten :
    let o : Object := ⟨⟨5⟩, .plain none⟩
    let p : Registries Bool Unit :=
      ⟨fun i => if i then .ofConfig .default else .ofConfig ⟨"com.example", true, .console⟩,
        ⟨[(⟨1⟩, ⟨some ⟨4, "AppError"⟩, "com.example.first", none, none, none, "com.example.first",
            some .null⟩),
          (⟨2⟩, ⟨none, "com.example.second", none, none, none, "com.example.second", none⟩),
          (⟨3⟩, ⟨none, "com.example.third", some [.string "x"], some [("k", .bool true)],
            some [("d", .null)], "com.example.third x", none⟩)], []⟩⟩
    let requests : List (Request Bool Unit) :=
      [⟨true, .toInvocation (.primitive (.string "boom")) 9⟩,
        ⟨true, .registerUri (.predefined .error) "com.example.bad"⟩, ⟨true, .close⟩,
        ⟨true, .setInvocation (.object o) ⟨1⟩⟩, ⟨false, .toInvocation (.object o) 7⟩,
        ⟨true, .setInvocation (.invocation ⟨1⟩) ⟨2⟩⟩]
    OthersMake false p requests ⟨9⟩ ∧ p.Undisturbed false requests ∧
      kept false requests = [⟨true, .setInvocation (.object o) ⟨1⟩⟩,
        ⟨false, .toInvocation (.object o) 7⟩, ⟨true, .setInvocation (.invocation ⟨1⟩) ⟨2⟩⟩] ∧
      ((p.after requests).step ⟨false, .setInvocation (.object ⟨⟨6⟩, .function⟩) ⟨1⟩⟩).Report
        (.object ⟨⟨6⟩, .function⟩) ⟨1⟩ ∧
      ∃ now, now = ((p.after requests).step ⟨true, .setInvocation (.invocation ⟨1⟩) ⟨3⟩⟩).after
          [⟨false, .toInvocation (.primitive .null) 8⟩] ∧
        now.store.invocation? ⟨1⟩ = some ⟨some ⟨4, "AppError"⟩, "com.example.third",
          some [.string "x"], some [("k", .bool true)], some [("d", .null)], "com.example.third x",
          some .null⟩ ∧
        now.Report (.object o) ⟨1⟩ := by
  intro o p requests
  have hreport : ((.ofConfig .default : Registry Unit).newReport none "string" [.string "boom"]) =
      .ok (.new ⟨none, "wamp.error.runtime_error", some [.string "boom"], none, none,
        InvocationError.render "wamp.error.runtime_error" (some [.string "boom"]), none⟩,
        some (.noUri "string" "wamp.error.runtime_error")) := rfl
  have hmakes : OthersMake false p requests ⟨9⟩ := .now (by decide) (.report hreport)
  have hmade : ∀ id, OthersMake false p requests id → id = ⟨9⟩ := by
    intro id h
    obtain ⟨q, hq, hnew⟩ := h.exists_newId?
    simp only [requests, List.mem_cons, List.not_mem_nil, or_false] at hq
    rcases hq with rfl | rfl | rfl | rfl | rfl | rfl
    all_goals simp_all [Operation.newId?]
  have hgiven : ∀ q ∈ requests, ∀ id, OthersMake false p requests id → ¬ q.operation.Given id := by
    intro q hq id h hid
    obtain rfl := hmade id h
    simp only [requests, List.mem_cons, List.not_mem_nil, or_false] at hq
    rcases hq with rfl | rfl | rfl | rfl | rfl | rfl
    all_goals cases hid
  have hnew : ∀ o id, p.store.attachments.get? (.object o) = some id →
      ¬ OthersMake false p requests id := by
    intro o id h
    cases h
  obtain ⟨hundisturbed, hshared⟩ := undisturbed p false requests hnew hgiven
  have hreported := hshared.attached false ⟨⟨6⟩, .function⟩ ⟨1⟩ [] (List.forall_mem_nil _)
  have hlater : ∀ q ∈ [(⟨false, .toInvocation (.primitive .null) 8⟩ : Request Bool Unit)],
      q.operation.newId? ≠ some ⟨1⟩ ∧
        ∀ c, q.operation.attachmentCall? = some c → ¬ c.Overwrites ⟨1⟩ := by
    intro q hq
    obtain rfl := List.mem_singleton.mp hq
    refine ⟨by decide, fun c hc => ?_⟩
    cases hc
  have htarget : (p.after requests).store.invocation? ⟨1⟩ = some ⟨some ⟨4, "AppError"⟩,
      "com.example.second", none, none, none, "com.example.second", some .null⟩ := by cbv
  have hsource : (p.after requests).store.invocation? ⟨3⟩ = some ⟨none, "com.example.third",
      some [.string "x"], some [("k", .bool true)], some [("d", .null)], "com.example.third x",
      none⟩ := by cbv
  obtain ⟨hfields, -, hall⟩ :=
    hshared.overwritten true ⟨1⟩ ⟨3⟩ _ _ _ _ htarget hsource hlater rfl
  have hattached : (((p.after requests).step ⟨true, .setInvocation (.invocation ⟨1⟩) ⟨3⟩⟩).after
      [⟨false, .toInvocation (.primitive .null) 8⟩]).store.attached? (.object o) = some ⟨1⟩ := by
    cbv
  exact ⟨hmakes, hundisturbed, rfl, hreported, _, rfl, hfields, hall o hattached⟩

end Registries

end Wamp
