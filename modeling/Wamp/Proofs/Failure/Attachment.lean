import Mathlib.Data.List.Induction
import Wamp.Peer
import Wamp.Proofs.Assoc
import Wamp.Proofs.Schema

/-!
# Attachments

What is to be reported for a failure is set and cleared, any number of times and through any
registry. An invocation error takes over the fields of the one that is set and is never attached
to anything (`Store.exists_set_of_mem_keys`); any other object is attached to it. A call changes
nothing but what it is about (`Store.attached?_call_of_not`, `Store.invocation?_call_of_not`), so
what is left after a sequence of calls is the work of the last one about each object and about each
invocation error: `Store.Records` says so, and `Store.Initial.records` that it holds of every
sequence.
-/

namespace Wamp

/-! ## The last element with a property -/

/-- An element is the last one of a list with a property, and stands behind the given ones. -/
def IsLast {α : Type _} (p : α → Prop) (l before : List α) (a : α) : Prop :=
  p a ∧ ∃ after, l = before ++ a :: after ∧ ∀ b ∈ after, ¬ p b

section

variable {α : Type _} {p : α → Prop} {l before : List α} {a b : α}

/-- An element with the property that is put at the end is the last one. -/
theorem isLast_concat_self (ha : p a) : IsLast p (l ++ [a]) l a := ⟨ha, [], rfl, nofun⟩

/-- No other element is the last one when one with the property is put at the end. -/
theorem IsLast.eq_of_concat (h : IsLast p (l ++ [a]) before b) (ha : p a) : b = a := by
  obtain ⟨-, after, heq, hafter⟩ := h
  rcases List.eq_nil_or_concat after with rfl | ⟨rest, c, rfl⟩
  · obtain ⟨-, hsingle⟩ := List.append_inj' heq rfl
    exact (List.singleton_inj.mp hsingle).symm
  -- Otherwise the element at the end comes after the last one.
  · rw [List.concat_eq_append, ← List.cons_append, ← List.append_assoc] at heq
    obtain ⟨-, hsingle⟩ := List.append_inj' heq rfl
    obtain rfl := List.singleton_inj.mp hsingle
    exact absurd ha (hafter a (by simp))

/-- An element without the property that is put at the end does not count. -/
theorem isLast_concat_iff (ha : ¬ p a) : IsLast p (l ++ [a]) before b ↔ IsLast p l before b := by
  constructor
  · rintro ⟨hb, after, heq, hafter⟩
    rcases List.eq_nil_or_concat after with rfl | ⟨rest, c, rfl⟩
    · obtain ⟨-, hsingle⟩ := List.append_inj' heq rfl
      obtain rfl := List.singleton_inj.mp hsingle
      exact absurd hb ha
    · rw [List.concat_eq_append, ← List.cons_append, ← List.append_assoc] at heq
      obtain ⟨rfl, -⟩ := List.append_inj' heq rfl
      exact ⟨hb, rest, rfl, fun x hx => hafter x (by simp [hx])⟩
  · rintro ⟨hb, after, rfl, hafter⟩
    refine ⟨hb, after ++ [a], by simp, fun x hx => ?_⟩
    rcases List.mem_append.mp hx with hx | hx
    · exact hafter x hx
    · rwa [List.mem_singleton.mp hx]

/-- If some element has the property, one is the last. -/
theorem exists_isLast (ha : a ∈ l) (hp : p a) : ∃ before b, IsLast p l before b := by
  induction l using List.reverseRecOn with
  | nil => cases ha
  | append_singleton l c ih =>
    by_cases hc : p c
    · exact ⟨l, c, isLast_concat_self hc⟩
    · have hmem : a ∈ l := by
        rcases List.mem_append.mp ha with ha | ha
        · exact ha
        · rw [List.mem_singleton.mp ha] at hp
          exact absurd hp hc
      obtain ⟨before, b, hb⟩ := ih hmem
      exact ⟨before, b, (isLast_concat_iff hc).mpr hb⟩

end

/-! ## Calls -/

/-- A call that sets or clears the invocation error to report for a failure. -/
inductive AttachmentCall where
  | set (failure : Thrown) (err : InvocationId)
  | clear (failure : Thrown)

namespace AttachmentCall

/-- The call as an operation of a registry. -/
def operation {σ : Type} : AttachmentCall → Operation σ
  | .set failure err => .setInvocation failure err
  | .clear failure => .clearAttached failure

/-- The failure that a call is about. -/
def failure : AttachmentCall → Thrown
  | .set failure _ => failure
  | .clear failure => failure

/-- A call is about an object if it is given that object. -/
def IsAbout (id : ObjectId) (c : AttachmentCall) : Prop := ∃ body, c.failure = .object ⟨id, body⟩

/-- A call overwrites an invocation error if it sets what is to be reported for it. -/
def Overwrites (id : InvocationId) (c : AttachmentCall) : Prop :=
  ∃ err, c = .set (.invocation id) err

end AttachmentCall

/-- A call sets only invocation errors that the store holds. -/
def AttachmentCall.Known (s : Store) (c : AttachmentCall) : Prop :=
  ∀ failure err, c = .set failure err → ∃ e, s.invocation? err = some e

namespace InvocationError

/-- An invocation error as it was made. -/
def Constructed (e : InvocationError) : Prop := ∃ derived uri init, ofClass derived uri init = .ok e

/-- The message of an invocation error is made from the URI and the arguments that it has. -/
def Rendered (e : InvocationError) : Prop := e.message = render e.uri e.args

/-- An invocation error is rendered when it is made. -/
theorem Constructed.rendered {e : InvocationError} (h : e.Constructed) : e.Rendered := by
  obtain ⟨derived, uri, init, hmade⟩ := h
  obtain ⟨valid, -, rfl⟩ := map_eq_ok_iff.mp hmade
  rfl

/-- An invocation error that is overwritten with a rendered one takes over everything but its class
and its cause. -/
theorem overwriteWith_eq {e e' : InvocationError} (h : e'.Rendered) :
    e.overwriteWith e' = { e' with derived := e.derived, cause := e.cause } := by
  rw [overwriteWith, ← h]

end InvocationError

namespace Store

/-- The store after a call. -/
def call (s : Store) : AttachmentCall → Store
  | .set failure err => (s.setInvocation failure err).1
  | .clear failure => (s.clearAttached failure).1

/-- The store after a sequence of calls. -/
def afterCalls (s : Store) (calls : List AttachmentCall) : Store := calls.foldl call s

/-- A store in which nothing is attached and every invocation error is as it was made. -/
structure Initial (s : Store) : Prop where
  attachments : s.attachments = []
  constructed : ∀ entry ∈ s.invocations, entry.2.Constructed

/-- What a sequence of calls makes of an invocation error: it is as it was before, if no call
overwrites it, or has what the last one that was set for it had at that moment. Its class and its
cause are its own. -/
inductive Fields (s₀ : Store) (calls : List AttachmentCall) (x : InvocationId)
    (e₀ : InvocationError) : InvocationError → Prop
  | kept (hnone : ∀ c ∈ calls, ¬ c.Overwrites x) : Fields s₀ calls x e₀ e₀
  | taken {before : List AttachmentCall} {source : InvocationId} {e : InvocationError}
      (hlast : IsLast (·.Overwrites x) calls before (.set (.invocation x) source))
      (hsource : (s₀.afterCalls before).invocation? source = some e) :
      Fields s₀ calls x e₀ { e with derived := e₀.derived, cause := e₀.cause }

/-- What a sequence of calls has made of a store. -/
structure Records (s₀ : Store) (calls : List AttachmentCall) (s : Store) : Prop where
  /-- No invocation error is attached to anything, so there is nothing to clear. -/
  unattached : ∀ x, .invocation x ∉ s.attachments.keys ∧ s.attached? (.invocation x) = none ∧
    s.clearAttached (.invocation x) = (s, false)
  /-- An object is attached to an invocation error exactly if the last call about it set it. -/
  attached : ∀ (o : Object) (err : InvocationId), s.attached? (.object o) = some err ↔
    ∃ before body,
      IsLast (·.IsAbout o.id) calls before (.set (.object ⟨o.id, body⟩) err)
  /-- What an object is attached to is what every registry reports for it. -/
  reported : ∀ (o : Object) (err : InvocationId), s.attached? (.object o) = some err →
    ∀ {σ : Type} (r : Registry σ) (fresh : Nat),
      Peer.step ⟨r, s⟩ (.toInvocation (.object o) fresh) = ⟨⟨r, s⟩, .ok (.invocation err), none⟩
  /-- Clearing an object tells whether it was attached, and leaves it unattached. -/
  cleared : ∀ o : Object, (s.clearAttached (.object o)).2 = (s.attached? (.object o)).isSome ∧
    (s.clearAttached (.object o)).1.attached? (.object o) = none
  /-- Every invocation error has the fields that the calls leave it with. -/
  fields : ∀ x e₀, s₀.invocation? x = some e₀ →
    ∃ e, s.invocation? x = some e ∧ Fields s₀ calls x e₀ e
  /-- A call through any registry leaves the registry as it is, and changes no attachment of another
  object than the one that it is about, and no field of another invocation error. -/
  frame : ∀ (c : AttachmentCall) {σ : Type} (r : Registry σ),
    (Peer.step ⟨r, s⟩ c.operation).peer = ⟨r, s.call c⟩ ∧
      (∀ o : Object, ¬ c.IsAbout o.id →
        (s.call c).attached? (.object o) = s.attached? (.object o)) ∧
      ∀ x, ¬ c.Overwrites x → (s.call c).invocation? x = s.invocation? x

/-- An invocation error has the fields that are kept for it. -/
theorem invocation?_setFields_self (s : Store) (id : InvocationId) (e : InvocationError) :
    (s.setFields id e).invocation? id = some e := Assoc.get?_put_self id e s.invocations

/-- Keeping the fields of an invocation error changes nothing about another one. -/
theorem invocation?_setFields_of_ne {id x : InvocationId} (h : id ≠ x) (s : Store)
    (e : InvocationError) : (s.setFields id e).invocation? x = s.invocation? x :=
  Assoc.get?_put_of_ne h e s.invocations

/-! ## One call -/

/-- Overwriting an invocation error changes no attachment. -/
theorem attachments_overwrite (s : Store) (target source : InvocationId) :
    (s.overwrite target source).attachments = s.attachments := by
  unfold overwrite
  split <;> rfl

/-- What is attached after a call was attached before, or is the object that the call attaches,
which is no invocation error. -/
theorem mem_keys_call {s : Store} {c : AttachmentCall} {key : Identity}
    (h : key ∈ (s.call c).attachments.keys) :
    key ∈ s.attachments.keys ∨ ∃ o err, c = .set (.object o) err ∧ key = .object o.id := by
  cases c with
  | set failure err =>
    cases failure with
    | primitive p => exact .inl h
    | object o =>
      rcases Assoc.mem_keys_put.mp h with rfl | h
      · exact .inr ⟨o, err, rfl, rfl⟩
      · exact .inl h
    -- An invocation error is overwritten, and the table is not asked.
    | invocation x =>
      have hkeys := congrArg Assoc.keys (attachments_overwrite s x err)
      exact .inl (hkeys ▸ h)
  | clear failure =>
    cases failure with
    | primitive p => exact .inl h
    | object o | invocation x => exact .inl (Assoc.mem_keys_erase.mp h).1

/-- Clearing something without an entry in the table does nothing. -/
theorem clearAttached_of_notMem {s : Store} {failure : Thrown} {key : Identity}
    (hkey : failure.identity? = some key) (h : key ∉ s.attachments.keys) :
    s.clearAttached failure = (s, false) := by
  simp [clearAttached, hkey, Assoc.erase_of_notMem h, Assoc.get?_of_notMem h]

/-- A call that is not about an object leaves what it is attached to. -/
theorem attached?_call_of_not {s : Store} {c : AttachmentCall} {o : Object}
    (h : ¬ c.IsAbout o.id) : (s.call c).attached? (.object o) = s.attached? (.object o) := by
  have hother (other : Object) (hc : c.failure = .object other) :
      Identity.object other.id ≠ .object o.id := by
    intro heq
    exact h ⟨other.body, Identity.object.inj heq ▸ hc⟩
  cases c with
  | set failure err =>
    cases failure with
    | primitive p => rfl
    | object other => exact Assoc.get?_put_of_ne (hother other rfl) err s.attachments
    | invocation x =>
      exact congrArg (Assoc.get? (Identity.object o.id)) (attachments_overwrite s x err)
  | clear failure =>
    cases failure with
    | primitive p => rfl
    | object other => exact Assoc.get?_erase_of_ne (hother other rfl) s.attachments
    | invocation x =>
      have hne : Identity.invocation x ≠ .object o.id := nofun
      exact Assoc.get?_erase_of_ne hne s.attachments

/-- An object is attached to what is set for it. -/
theorem attached?_call_set (s : Store) (o : Object) (body : Body) (err : InvocationId) :
    (s.call (.set (.object ⟨o.id, body⟩) err)).attached? (.object o) = some err :=
  Assoc.get?_put_self (Identity.object o.id) err s.attachments

/-- An object that is cleared is not attached. -/
theorem attached?_call_clear (s : Store) (o : Object) (body : Body) :
    (s.call (.clear (.object ⟨o.id, body⟩))).attached? (.object o) = none :=
  Assoc.get?_erase_self (Identity.object o.id) s.attachments

/-- After a call about an object, it is attached to an invocation error exactly if the call set that
one. -/
theorem attached?_call_iff {s : Store} {c : AttachmentCall} {o : Object} (h : c.IsAbout o.id)
    {err : InvocationId} : (s.call c).attached? (.object o) = some err ↔
      ∃ body, c = .set (.object ⟨o.id, body⟩) err := by
  obtain ⟨body, hbody⟩ := h
  cases c with
  | set failure err' =>
    obtain rfl : failure = .object ⟨o.id, body⟩ := hbody
    rw [attached?_call_set, Option.some.injEq]
    constructor
    · rintro rfl
      exact ⟨body, rfl⟩
    · rintro ⟨body', heq⟩
      exact (AttachmentCall.set.inj heq).2
  | clear failure =>
    obtain rfl : failure = .object ⟨o.id, body⟩ := hbody
    rw [attached?_call_clear]
    constructor
    · exact nofun
    · rintro ⟨body', heq⟩
      exact nomatch heq

/-- A call that does not overwrite an invocation error leaves its fields. -/
theorem invocation?_call_of_not {s : Store} {c : AttachmentCall} {x : InvocationId}
    (h : ¬ c.Overwrites x) : (s.call c).invocation? x = s.invocation? x := by
  cases c with
  | clear failure => cases failure <;> rfl
  | set failure err =>
    cases failure with
    | primitive p | object o => rfl
    | invocation target =>
      have hne : target ≠ x := by
        rintro rfl
        exact h ⟨err, rfl⟩
      show (s.overwrite target err).invocation? x = _
      unfold overwrite
      split
      · exact invocation?_setFields_of_ne hne s _
      · rfl

/-- An invocation error takes over the fields of the one that is set for it. -/
theorem invocation?_call_set {s : Store} {x source : InvocationId} {e e' : InvocationError}
    (hx : s.invocation? x = some e) (hsource : s.invocation? source = some e') :
    (s.call (.set (.invocation x) source)).invocation? x = some (e.overwriteWith e') := by
  show (s.overwrite x source).invocation? x = _
  rw [overwrite, hx, hsource]
  exact invocation?_setFields_self s x _

/-- What an object is attached to is reported for it, and nothing else happens. -/
theorem step_toInvocation_of_attached {σ : Type} (r : Registry σ) {s : Store} {o : Object}
    {id : InvocationId} (h : s.attached? (.object o) = some id) (fresh : Nat) :
    Peer.step ⟨r, s⟩ (.toInvocation (.object o) fresh) = ⟨⟨r, s⟩, .ok (.invocation id), none⟩ := by
  rw [Peer.step, Registry.toInvocation, h]
  rfl

/-! ## Sequences of calls -/

/-- The store after a sequence of calls with one more at the end. -/
theorem afterCalls_concat (s : Store) (calls : List AttachmentCall) (c : AttachmentCall) :
    s.afterCalls (calls ++ [c]) = (s.afterCalls calls).call c := List.foldl_concat call s c calls

/-- Where nothing was attached before, an object is attached exactly to what the last call about it
set. -/
theorem attached?_afterCalls_iff {s₀ : Store} (hnone : s₀.attachments = [])
    {calls : List AttachmentCall} {o : Object} {err : InvocationId} :
    (s₀.afterCalls calls).attached? (.object o) = some err ↔
      ∃ before body, IsLast (·.IsAbout o.id) calls before (.set (.object ⟨o.id, body⟩) err) := by
  induction calls using List.reverseRecOn with
  | nil =>
    have hempty : (s₀.afterCalls []).attached? (.object o) = none := by
      show s₀.attachments.get? (.object o.id) = none
      rw [hnone]
      rfl
    rw [hempty]
    constructor
    · exact nofun
    · rintro ⟨before, body, -, after, heq, -⟩
      exact absurd heq (by simp)
  | append_singleton calls c ih =>
    rw [afterCalls_concat]
    by_cases habout : c.IsAbout o.id
    -- The call at the end decides.
    · rw [attached?_call_iff habout]
      constructor
      · rintro ⟨body, rfl⟩
        exact ⟨calls, body, isLast_concat_self habout⟩
      · rintro ⟨before, body, hlast⟩
        exact ⟨body, (hlast.eq_of_concat habout).symm⟩
    · rw [attached?_call_of_not habout, ih]
      simp only [isLast_concat_iff habout]

/-- Where nothing was attached before, only what some call attaches is attached, and this is never
an invocation error. -/
theorem exists_set_of_mem_keys {s₀ : Store} (hnone : s₀.attachments = [])
    {calls : List AttachmentCall} {key : Identity}
    (h : key ∈ (s₀.afterCalls calls).attachments.keys) :
    ∃ o err, .set (.object o) err ∈ calls ∧ key = .object o.id := by
  induction calls using List.reverseRecOn with
  | nil =>
    have hempty : key ∈ s₀.attachments.keys := h
    rw [hnone] at hempty
    exact absurd hempty List.not_mem_nil
  | append_singleton calls c ih =>
    rw [afterCalls_concat] at h
    rcases mem_keys_call h with h | ⟨o, err, rfl, rfl⟩
    · obtain ⟨o, err, hset, rfl⟩ := ih h
      exact ⟨o, err, List.mem_append_left _ hset, rfl⟩
    · exact ⟨o, err, List.mem_append_right _ List.mem_cons_self, rfl⟩

/-- No sequence of calls changes the class of an invocation error. -/
theorem Fields.derived_eq {s₀ : Store} {calls : List AttachmentCall} {x : InvocationId}
    {e₀ e : InvocationError} (h : Fields s₀ calls x e₀ e) : e.derived = e₀.derived := by
  cases h <;> rfl

/-- No sequence of calls changes the cause of an invocation error. -/
theorem Fields.cause_eq {s₀ : Store} {calls : List AttachmentCall} {x : InvocationId}
    {e₀ e : InvocationError} (h : Fields s₀ calls x e₀ e) : e.cause = e₀.cause := by
  cases h <;> rfl

/-- A call that does not overwrite an invocation error adds nothing to what the calls before made of
it. -/
theorem Fields.concat {s₀ : Store} {calls : List AttachmentCall} {x : InvocationId}
    {e₀ e : InvocationError} {c : AttachmentCall} (h : Fields s₀ calls x e₀ e)
    (hc : ¬ c.Overwrites x) : Fields s₀ (calls ++ [c]) x e₀ e := by
  cases h with
  | kept hnone =>
    refine .kept fun d hd => ?_
    rcases List.mem_append.mp hd with hd | hd
    · exact hnone d hd
    · rwa [List.mem_singleton.mp hd]
  | taken hlast hsource => exact .taken ((isLast_concat_iff hc).mpr hlast) hsource

/-- After any calls, an invocation error has the fields that the calls leave it with, and its
message is made from them. -/
theorem Initial.exists_fields {s₀ : Store} (h : s₀.Initial) {calls : List AttachmentCall}
    (hknown : ∀ c ∈ calls, c.Known s₀) {x : InvocationId} {e₀ : InvocationError}
    (hx : s₀.invocation? x = some e₀) :
    ∃ e, (s₀.afterCalls calls).invocation? x = some e ∧ e.Rendered ∧ Fields s₀ calls x e₀ e := by
  induction calls using List.reverseRecOn generalizing x e₀ with
  | nil =>
    have hrendered := (h.constructed _ (Assoc.mem_of_get? hx)).rendered
    exact ⟨e₀, hx, hrendered, .kept (List.forall_mem_nil _)⟩
  | append_singleton calls c ih =>
    have hbefore : ∀ d ∈ calls, d.Known s₀ := fun d hd => hknown d (List.mem_append_left _ hd)
    obtain ⟨e, he, hrendered, hfields⟩ := ih hbefore hx
    rw [afterCalls_concat]
    by_cases hover : c.Overwrites x
    -- The source has its own fields from the calls before, with a message that is made from them.
    · have hself := hover
      obtain ⟨source, rfl⟩ := hover
      have hset : AttachmentCall.Known s₀ (.set (.invocation x) source) :=
        hknown _ (List.mem_append_right _ List.mem_cons_self)
      obtain ⟨source₀, hsource₀⟩ := hset _ source rfl
      obtain ⟨e', he', hrendered', -⟩ := ih hbefore hsource₀
      refine ⟨e.overwriteWith e', invocation?_call_set he he', rfl, ?_⟩
      rw [InvocationError.overwriteWith_eq hrendered', hfields.derived_eq, hfields.cause_eq]
      exact .taken (isLast_concat_self hself) he'
    · exact ⟨e, (invocation?_call_of_not hover).trans he, hrendered, hfields.concat hover⟩

/-- Every sequence of calls that set invocation errors of the store, with which nothing was attached
before and every invocation error was as it was made, leaves what the last calls say. -/
theorem Initial.records {s₀ : Store} (h : s₀.Initial) {calls : List AttachmentCall}
    (hknown : ∀ c ∈ calls, c.Known s₀) : Records s₀ calls (s₀.afterCalls calls) where
  unattached x := by
    have habsent : .invocation x ∉ (s₀.afterCalls calls).attachments.keys := by
      intro hkey
      obtain ⟨o, err, -, heq⟩ := exists_set_of_mem_keys h.attachments hkey
      exact nomatch heq
    exact ⟨habsent, Assoc.get?_of_notMem habsent, clearAttached_of_notMem rfl habsent⟩
  attached _ _ := attached?_afterCalls_iff h.attachments
  reported _ _ hattached _ r fresh := step_toInvocation_of_attached r hattached fresh
  cleared o := ⟨rfl, attached?_call_clear _ o o.body⟩
  fields x e₀ hx := by
    obtain ⟨e, he, -, hfields⟩ := h.exists_fields hknown hx
    exact ⟨e, he, hfields⟩
  frame c _ r := by
    refine ⟨?_, fun o habout => attached?_call_of_not habout,
      fun x hover => invocation?_call_of_not hover⟩
    cases c <;> rfl

/-- Two invocation errors, of which the first is attached to a failure, overwritten with the second
after that, and then attached to another failure, while the second is set for itself. -/
theorem Initial.records_overwritten :
    let s₀ : Store := ⟨[(⟨1⟩, ⟨some ⟨9, "AppError"⟩, "com.example.first", none, none, none,
          "com.example.first", some .null⟩),
        (⟨2⟩, ⟨none, "com.example.second", some [.string "x"], none, none, "com.example.second x",
          none⟩)], []⟩
    let calls : List AttachmentCall := [.set (.object ⟨⟨5⟩, .function⟩) ⟨1⟩,
      .set (.invocation ⟨1⟩) ⟨2⟩, .set (.object ⟨⟨6⟩, .plain none⟩) ⟨1⟩, .set (.invocation ⟨2⟩) ⟨2⟩,
      .clear (.object ⟨⟨5⟩, .function⟩), .clear (.invocation ⟨1⟩)]
    Records s₀ calls (s₀.afterCalls calls) ∧
      (s₀.afterCalls calls).attached? (.object ⟨⟨5⟩, .function⟩) = none ∧
      (s₀.afterCalls calls).attached? (.object ⟨⟨6⟩, .plain none⟩) = some ⟨1⟩ ∧
      (s₀.afterCalls calls).invocation? ⟨1⟩ = some ⟨some ⟨9, "AppError"⟩, "com.example.second",
        some [.string "x"], none, none, "com.example.second x", some .null⟩ := by
  intro s₀ calls
  have h₀ : s₀.Initial := by
    refine ⟨rfl, ?_⟩
    rintro entry (_ | ⟨_, _ | ⟨_, ⟨⟩⟩⟩)
    · exact ⟨some ⟨9, "AppError"⟩, "com.example.first", { cause := some .null }, rfl⟩
    · exact ⟨none, "com.example.second", { args := some [.string "x"] }, rfl⟩
  have hknown : ∀ c ∈ calls, c.Known s₀ := by
    rintro c hc failure err rfl
    obtain rfl | rfl : err = ⟨1⟩ ∨ err = ⟨2⟩ := by simp [calls] at hc; tauto
    · exact ⟨_, rfl⟩
    · exact ⟨_, rfl⟩
  exact ⟨h₀.records hknown, rfl, rfl, rfl⟩

end Store

end Wamp
