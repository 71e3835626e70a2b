import Wamp.Proofs.Failure.Attachment
import Wamp.Proofs.Registry.History

/-!
# Operations on stores that agree

What a registry does to the store is listed by `Store.Stepped`: it carries out a call that sets or
clears what is to be reported, or keeps an invocation error that it makes. Two stores agree off some
hidden invocation errors if they have the same attachments, none of them to a hidden one, and the
same fields of every other invocation error. An operation that is given nothing hidden cannot tell
such stores apart and leaves them in agreement (`Store.AgreeOff.step`).
-/

namespace Wamp

/-! ## What an operation does to the store -/

namespace Operation

variable {σ : Type}

/-- The call that an operation makes, if it sets or clears what is to be reported for a failure. -/
def attachmentCall? : Operation σ → Option AttachmentCall
  | .setInvocation failure err => some (.set failure err)
  | .clearAttached failure => some (.clear failure)
  | _ => none

/-- The identity that an operation is given for an invocation error that it may make. -/
def newId? : Operation σ → Option InvocationId
  | .toFailure _ _ fresh => some ⟨fresh⟩
  | .toInvocation _ fresh => some ⟨fresh⟩
  | _ => none

/-- An operation is given an invocation error, as the failure that it is about or as the one that is
to be reported. -/
inductive Given (id : InvocationId) : Operation σ → Prop
  | toInvocation (fresh : Nat) : Given id (.toInvocation (.invocation id) fresh)
  | toReply (requestId : Number) : Given id (.toReply (.invocation id) requestId)
  | target (err : InvocationId) : Given id (.setInvocation (.invocation id) err)
  | source (failure : Thrown) : Given id (.setInvocation failure id)
  | cleared : Given id (.clearAttached (.invocation id))

/-- The call that an operation makes is all that it does. -/
theorem eq_of_attachmentCall? {op : Operation σ} {c : AttachmentCall}
    (h : op.attachmentCall? = some c) : op = c.operation := by
  cases op with
  | setInvocation failure err | clearAttached failure =>
    cases h
    rfl
  | registerResponse | registerUri | close | factoryFor | uriOf | toFailure | toInvocation
    | toReply => cases h

end Operation

section

variable {σ : Type}

/-- An operation makes a new invocation error: the one to report for a failure that has none yet, or
the one that the factory for an error message builds. -/
inductive Registry.Makes (r : Registry σ) (s : Store) :
    Operation σ → InvocationId → InvocationError → Prop
  | report {failure : Thrown} {fresh : Nat} {e : InvocationError} {d : Option Diagnostic}
      (h : r.toInvocation s failure = .ok (.new e, d)) :
      Makes r s (.toInvocation failure fresh) ⟨fresh⟩ e
  | product {m : ErrorMessage} {state : σ} {fresh : Nat} {e : InvocationError}
      (h : r.toFailure state m = .ok (.invocation e)) :
      Makes r s (.toFailure m state fresh) ⟨fresh⟩ e

/-- What is made gets the identity that the operation is given for it. -/
theorem Registry.Makes.newId? {r : Registry σ} {s : Store} {op : Operation σ} {id : InvocationId}
    {e : InvocationError} (h : r.Makes s op id e) : op.newId? = some id := by
  cases h <;> rfl

/-- A new invocation error is none that is there already. -/
theorem Registry.newReport_ne_existing {r : Registry σ} {c? : Option FailureClass} {kind : String}
    {args : List Value} {id : InvocationId} {d : Option Diagnostic} :
    r.newReport c? kind args ≠ .ok (.existing id, d) := by
  intro h
  obtain ⟨e, -, heq⟩ := map_eq_ok_iff.mp h
  cases heq

/-- What an operation can do to the store. -/
inductive Store.Stepped (r : Registry σ) (s : Store) (op : Operation σ) : Store → Prop
  /-- The call that it makes is carried out. -/
  | called {c : AttachmentCall} (hcall : op.attachmentCall? = some c) : Stepped r s op (s.call c)
  /-- An invocation error that it makes is kept. -/
  | made {id : InvocationId} {e : InvocationError} (hcall : op.attachmentCall? = none)
      (hmakes : r.Makes s op id e) : Stepped r s op (s.setFields id e)
  /-- Nothing is done. -/
  | same (hcall : op.attachmentCall? = none) : Stepped r s op s

/-- A registration leaves the store as it is. -/
theorem Peer.store_registered (p : Peer σ)
    (result : Except Fault (Registry σ × Option Diagnostic)) :
    (p.registered result).peer.store = p.store := by
  cases result <;> rfl

/-- The reply for fields that the store holds is made of them. -/
theorem Peer.replied_of_some (p : Peer σ) (requestId : Number) (d : Option Diagnostic)
    {report : Report} {e : InvocationError} (h : report.fields? p.store = some e) :
    p.replied requestId (.ok (report, d)) =
      ⟨p, .ok (.reply (e.toErrorMessage requestId .invocation)), d⟩ := by
  simp only [replied, h]

/-- There is no reply for an identity that the store does not hold. -/
theorem Peer.replied_of_none (p : Peer σ) (requestId : Number) (d : Option Diagnostic)
    {report : Report} (h : report.fields? p.store = none) :
    p.replied requestId (.ok (report, d)) = ⟨p, .ok .done, d⟩ := by
  simp only [replied, h]

/-- Every operation does one of these things to the store. -/
theorem Store.stepped (r : Registry σ) (s : Store) (op : Operation σ) :
    Stepped r s op (Peer.step ⟨r, s⟩ op).peer.store := by
  cases op with
  | setInvocation failure err => exact .called (c := .set failure err) rfl
  | clearAttached failure => exact .called (c := .clear failure) rfl
  | close => exact .same rfl
  | registerResponse uri factory? matching =>
    rw [Peer.step, Peer.store_registered]
    exact .same rfl
  | registerUri c uri =>
    rw [Peer.step, Peer.store_registered]
    exact .same rfl
  | factoryFor uri =>
    rw [Peer.step]
    split <;> exact .same rfl
  | uriOf c =>
    rw [Peer.step]
    split <;> exact .same rfl
  | toReply failure requestId =>
    rw [Peer.step, Peer.peer_replied]
    exact .same rfl
  | toFailure m state fresh =>
    rw [Peer.step]
    split
    · next product hproduct =>
      cases product with
      | existing thrown => exact .same rfl
      | object body => exact .same rfl
      | invocation e => exact .made rfl (.product hproduct)
    · exact .same rfl
  | toInvocation failure fresh =>
    rw [Peer.step]
    cases hreport : r.toInvocation s failure with
    | error fault => exact .same rfl
    | ok result =>
      obtain ⟨report, d⟩ := result
      cases report with
      | existing id => exact .same rfl
      | new e => exact .made rfl (.report hreport)

/-- An object stays attached to what it is attached to unless a call is about it. -/
theorem Store.Stepped.attached?_eq {r : Registry σ} {s s' : Store} {op : Operation σ}
    (h : Stepped r s op s') {o : Object}
    (hcall : ∀ c, op.attachmentCall? = some c → ¬ c.IsAbout o.id) :
    s'.attached? (.object o) = s.attached? (.object o) := by
  cases h with
  | called hc => exact attached?_call_of_not (hcall _ hc)
  | made | same => rfl

/-- An invocation error keeps its fields unless a call overwrites it or another is made under its
identity. -/
theorem Store.Stepped.invocation?_eq {r : Registry σ} {s s' : Store} {op : Operation σ}
    (h : Stepped r s op s') {x : InvocationId}
    (hcall : ∀ c, op.attachmentCall? = some c → ¬ c.Overwrites x) (hnew : op.newId? ≠ some x) :
    s'.invocation? x = s.invocation? x := by
  cases h with
  | called hc => exact invocation?_call_of_not (hcall _ hc)
  | @made id e hc hmakes =>
    have hne : id ≠ x := by
      rintro rfl
      exact hnew hmakes.newId?
    exact invocation?_setFields_of_ne hne s e
  | same => rfl

end

/-! ## Stores that agree -/

namespace Store

/-- Two stores agree but for the fields of hidden invocation errors, and nothing is attached to a
hidden one. -/
structure AgreeOff (hidden : InvocationId → Prop) (s s' : Store) : Prop where
  attachments : s.attachments = s'.attachments
  attached : ∀ o id, s.attachments.get? (.object o) = some id → ¬ hidden id
  fields : ∀ id, ¬ hidden id → s.invocation? id = s'.invocation? id

section

variable {σ : Type} {hidden : InvocationId → Prop} {s s' : Store}

/-- A store agrees with itself if nothing in it is attached to a hidden invocation error. -/
theorem AgreeOff.refl (h : ∀ o id, s.attachments.get? (.object o) = some id → ¬ hidden id) :
    AgreeOff hidden s s := ⟨rfl, h, fun _ _ => rfl⟩

/-- Whatever is thrown is attached to the same in stores that agree. -/
theorem AgreeOff.attached?_eq (h : AgreeOff hidden s s') (failure : Thrown) :
    s.attached? failure = s'.attached? failure := by
  rw [attached?, attached?, h.attachments]

/-- Stores still agree when the same fields are kept in both. -/
theorem AgreeOff.setFields (h : AgreeOff hidden s s') (id : InvocationId) (e : InvocationError) :
    AgreeOff hidden (s.setFields id e) (s'.setFields id e) := by
  refine ⟨h.attachments, h.attached, fun x hx => ?_⟩
  by_cases hid : id = x
  · rw [← hid, invocation?_setFields_self, invocation?_setFields_self]
  · rw [invocation?_setFields_of_ne hid, invocation?_setFields_of_ne hid]
    exact h.fields x hx

/-- Stores still agree when one of them keeps the fields of a hidden invocation error. -/
theorem AgreeOff.setHidden (h : AgreeOff hidden s s') {id : InvocationId} (hid : hidden id)
    (e : InvocationError) : AgreeOff hidden (s.setFields id e) s' := by
  refine ⟨h.attachments, h.attached, fun x hx => ?_⟩
  have hne : id ≠ x := by
    rintro rfl
    exact hx hid
  rw [invocation?_setFields_of_ne hne]
  exact h.fields x hx

/-- Stores still agree when an object is attached in both to what is not hidden. -/
theorem AgreeOff.attach (h : AgreeOff hidden s s') (key : Identity) {err : InvocationId}
    (herr : ¬ hidden err) : AgreeOff hidden (s.attach key err) (s'.attach key err) := by
  refine ⟨congrArg (Assoc.put key err) h.attachments, fun x id hx => ?_, h.fields⟩
  rcases Assoc.get?_of_get?_put hx with rfl | hx
  · exact herr
  · exact h.attached x id hx

/-- Stores still agree when an invocation error takes over the fields of another in both, neither of
which is hidden. -/
theorem AgreeOff.overwrite (h : AgreeOff hidden s s') {target source : InvocationId}
    (htarget : ¬ hidden target) (hsource : ¬ hidden source) :
    AgreeOff hidden (s.overwrite target source) (s'.overwrite target source) := by
  unfold Store.overwrite
  rw [← h.fields target htarget, ← h.fields source hsource]
  split
  · exact h.setFields target _
  · exact h

/-- Stores still agree when something is cleared in both. -/
theorem AgreeOff.clear (h : AgreeOff hidden s s') (failure : Thrown) :
    AgreeOff hidden (s.call (.clear failure)) (s'.call (.clear failure)) := by
  show AgreeOff hidden (s.clearAttached failure).1 (s'.clearAttached failure).1
  unfold clearAttached
  split
  · next key _ =>
    refine ⟨congrArg (Assoc.erase key) h.attachments, fun x id hx => ?_, h.fields⟩
    exact h.attached x id (Assoc.get?_of_get?_erase hx)
  · exact h

/-- Stores still agree after the same call, if it is given nothing hidden. -/
theorem AgreeOff.call (h : AgreeOff hidden s s') {c : AttachmentCall}
    (hgiven : ∀ id, hidden id → ¬ (c.operation : Operation σ).Given id) :
    AgreeOff hidden (s.call c) (s'.call c) := by
  cases c with
  | set failure err =>
    have herr : ¬ hidden err := fun hid => hgiven err hid (.source failure)
    cases failure with
    | primitive p => exact h
    | object o => exact h.attach (.object o.id) herr
    | invocation x => exact h.overwrite (fun hid => hgiven x hid (.target err)) herr
  | clear failure => exact h.clear failure

/-- Stores still agree after an operation that makes no call in one of them, if what it makes is
hidden. -/
theorem AgreeOff.stepped (h : AgreeOff hidden s s') {r : Registry σ} {op : Operation σ} {t : Store}
    (hstep : Stepped r s op t) (hcall : op.attachmentCall? = none)
    (hmakes : ∀ id e, r.Makes s op id e → hidden id) : AgreeOff hidden t s' := by
  cases hstep with
  | called hc => exact absurd (hcall.symm.trans hc) nofun
  | made _ hmade => exact h.setHidden (hmakes _ _ hmade) _
  | same => exact h

/-- The text of an invocation error that is not hidden is the same in stores that agree. -/
theorem AgreeOff.textOf_eq (h : AgreeOff hidden s s') {id : InvocationId} (hid : ¬ hidden id) :
    s.textOf id = s'.textOf id := by
  rw [textOf, textOf, h.fields id hid]

/-- What is noted of a setting is the same in stores that agree, if it is given nothing hidden. -/
theorem AgreeOff.noted_eq (h : AgreeOff hidden s s') {failure : Thrown} {err : InvocationId}
    (hgiven : ∀ id, hidden id → ¬ (Operation.setInvocation failure err : Operation σ).Given id) :
    (s.setInvocation failure err).2 = (s'.setInvocation failure err).2 := by
  have herr : s.textOf err = s'.textOf err :=
    h.textOf_eq fun hid => hgiven err hid (.source failure)
  cases failure with
  | primitive p => rfl
  | object o =>
    have hold : ∀ old, s.attached? (.object o) = some old → s.textOf old = s'.textOf old :=
      fun old hattached => h.textOf_eq (h.attached o.id old hattached)
    show (s.attached? (.object o)).map _ = (s'.attached? (.object o)).map _
    rw [← h.attached?_eq, herr]
    cases hattached : s.attached? (.object o) with
    | none => rfl
    | some old => rw [Option.map_some, Option.map_some, hold old hattached]
  | invocation x =>
    have htarget : s.textOf x = s'.textOf x := h.textOf_eq fun hid => hgiven x hid (.target err)
    show some (Diagnostic.overwriting (s.textOf x) (s.textOf err)) = _
    rw [htarget, herr]
    rfl

/-- What is cleared is the same in stores that agree. -/
theorem AgreeOff.cleared_eq (h : AgreeOff hidden s s') (failure : Thrown) :
    (s.clearAttached failure).2 = (s'.clearAttached failure).2 := by
  unfold clearAttached
  rw [h.attachments]
  split <;> rfl

/-- A registry reports the same in stores that agree. -/
theorem AgreeOff.toInvocation_eq (h : AgreeOff hidden s s') (r : Registry σ) (failure : Thrown) :
    r.toInvocation s failure = r.toInvocation s' failure := by
  cases failure with
  | primitive p | invocation x => rfl
  | object o => rw [Registry.toInvocation, Registry.toInvocation, h.attached?_eq]

/-- An invocation error that is there and is reported for a failure is hidden only if it is that
failure. -/
theorem AgreeOff.not_hidden_existing (h : AgreeOff hidden s s') {r : Registry σ} {failure : Thrown}
    {id : InvocationId} {d : Option Diagnostic}
    (hreport : r.toInvocation s failure = .ok (.existing id, d))
    (hgiven : failure = .invocation id → ¬ hidden id) : ¬ hidden id := by
  cases failure with
  | primitive p =>
    rw [Registry.toInvocation] at hreport
    exact absurd hreport Registry.newReport_ne_existing
  | invocation x =>
    cases hreport
    exact hgiven rfl
  | object o =>
    rw [Registry.toInvocation] at hreport
    split at hreport
    · next hattached =>
      cases hreport
      exact h.attached o.id id hattached
    · exact absurd hreport Registry.newReport_ne_existing

end

end Store

/-! ## Operations of one registry -/

/-- Two outcomes of an operation are alike but for hidden invocation errors. -/
structure Outcome.Alike {σ : Type} (hidden : InvocationId → Prop) (o o' : Outcome σ) : Prop where
  /-- The tables and the closing of the registry are the same. -/
  registry : o.peer.registry = o'.peer.registry
  store : Store.AgreeOff hidden o.peer.store o'.peer.store
  answer : o.answer = o'.answer
  diagnostic : o.diagnostic = o'.diagnostic
  /-- An invocation error to report has the same fields. -/
  reported : ∀ id, o.answer = .ok (.invocation id) →
    o.peer.store.invocation? id = o'.peer.store.invocation? id

section

variable {σ : Type} {hidden : InvocationId → Prop} {s s' : Store}

/-- Outcomes that change no store and report no invocation error are alike. -/
theorem Outcome.Alike.of_eq (h : s.AgreeOff hidden s') {r : Registry σ}
    {answer : Except Fault (Answer σ)} {d : Option Diagnostic}
    (hanswer : ∀ id, answer ≠ .ok (.invocation id)) :
    Alike hidden ⟨⟨r, s⟩, answer, d⟩ ⟨⟨r, s'⟩, answer, d⟩ :=
  ⟨rfl, h, rfl, rfl, fun id hid => absurd hid (hanswer id)⟩

/-- The result of a registration is alike in stores that agree. -/
theorem Store.AgreeOff.registered (h : s.AgreeOff hidden s') (r : Registry σ)
    (result : Except Fault (Registry σ × Option Diagnostic)) :
    Outcome.Alike hidden (Peer.registered ⟨r, s⟩ result) (Peer.registered ⟨r, s'⟩ result) := by
  cases result with
  | error fault => exact .of_eq h (by simp)
  | ok result => exact .of_eq h (by simp)

/-- The result of a translation is alike in stores that agree. -/
theorem Store.AgreeOff.reported (h : s.AgreeOff hidden s') (r : Registry σ) {failure : Thrown}
    (fresh : Nat) (hgiven : ∀ id, failure = .invocation id → ¬ hidden id) :
    Outcome.Alike hidden (Peer.step ⟨r, s⟩ (.toInvocation failure fresh))
      (Peer.step ⟨r, s'⟩ (.toInvocation failure fresh)) := by
  rw [Peer.step, Peer.step, ← h.toInvocation_eq]
  cases hreport : r.toInvocation s failure with
  | error fault => exact .of_eq h (by simp)
  | ok result =>
    obtain ⟨report, d⟩ := result
    cases report with
    | existing id =>
      refine ⟨rfl, h, rfl, rfl, ?_⟩
      rintro x ⟨⟩
      exact h.fields id (h.not_hidden_existing hreport (hgiven id))
    -- What is new is kept in both stores.
    | new e =>
      refine ⟨rfl, h.setFields ⟨fresh⟩ e, rfl, rfl, ?_⟩
      rintro x ⟨⟩
      exact (invocation?_setFields_self s _ e).trans (invocation?_setFields_self s' _ e).symm

/-- A reply is alike in stores that agree. -/
theorem Store.AgreeOff.replied (h : s.AgreeOff hidden s') (r : Registry σ) {failure : Thrown}
    (requestId : Number) (hgiven : ∀ id, failure = .invocation id → ¬ hidden id) :
    Outcome.Alike hidden (Peer.step ⟨r, s⟩ (.toReply failure requestId))
      (Peer.step ⟨r, s'⟩ (.toReply failure requestId)) := by
  rw [Peer.step, Peer.step, ← h.toInvocation_eq]
  cases hreport : r.toInvocation s failure with
  | error fault => exact .of_eq h (by simp)
  | ok result =>
    obtain ⟨report, d⟩ := result
    have hfields : report.fields? s = report.fields? s' := by
      cases report with
      | existing id => exact h.fields id (h.not_hidden_existing hreport (hgiven id))
      | new e => rfl
    -- What is replied depends on the fields alone.
    cases hfound : report.fields? s' with
    | none =>
      rw [Peer.replied_of_none _ _ _ (hfields.trans hfound), Peer.replied_of_none _ _ _ hfound]
      exact .of_eq h (by simp)
    | some e =>
      rw [Peer.replied_of_some _ _ _ (hfields.trans hfound), Peer.replied_of_some _ _ _ hfound]
      exact .of_eq h (by simp)

/-- An operation that is given nothing hidden comes out alike in stores that agree. -/
theorem Store.AgreeOff.step (h : s.AgreeOff hidden s') (r : Registry σ) {op : Operation σ}
    (hgiven : ∀ id, hidden id → ¬ op.Given id) :
    Outcome.Alike hidden (Peer.step ⟨r, s⟩ op) (Peer.step ⟨r, s'⟩ op) := by
  cases op with
  | registerResponse uri factory? matching => exact h.registered r _
  | registerUri c uri => exact h.registered r _
  | close => exact .of_eq h (by simp)
  | factoryFor uri =>
    rw [Peer.step, Peer.step]
    cases r.factoryFor uri <;> exact .of_eq h (by simp)
  | uriOf c =>
    rw [Peer.step, Peer.step]
    cases r.uriOf c <;> exact .of_eq h (by simp)
  | toFailure m state fresh =>
    rw [Peer.step, Peer.step]
    cases r.toFailure state m with
    | error fault => exact .of_eq h (by simp)
    | ok product =>
      cases product with
      | existing thrown => exact .of_eq h (by simp)
      | object body => exact .of_eq h (by simp)
      | invocation e => exact ⟨rfl, h.setFields ⟨fresh⟩ e, rfl, rfl, by simp⟩
  | toInvocation failure fresh =>
    refine h.reported r fresh ?_
    rintro id rfl hid
    exact hgiven id hid (.toInvocation fresh)
  | toReply failure requestId =>
    refine h.replied r requestId ?_
    rintro id rfl hid
    exact hgiven id hid (.toReply requestId)
  | setInvocation failure err =>
    refine ⟨rfl, AgreeOff.call (c := .set failure err) h hgiven, rfl, h.noted_eq hgiven, ?_⟩
    intro id hid
    cases hid
  | clearAttached failure =>
    refine ⟨rfl, AgreeOff.call (c := .clear failure) h hgiven, ?_, rfl, ?_⟩
    · exact congrArg (fun cleared => Except.ok (Answer.cleared cleared)) (h.cleared_eq failure)
    · intro id hid
      cases hid

end

end Wamp
