import Wamp.Failure.Payload
import Wamp.Proofs.Failure.Attachment
import Wamp.Proofs.Uri.Grammar

/-!
# Invocation errors that there can be

An invocation error is made under a URI, rebuilt from a payload, or made by a registry for a
failure, and may take over the fields of others any number of times. Whatever a program does of
this, the URI of an invocation error is valid, what is empty is absent, and the message is made from
the fields that it has (`InvocationError.Normal`); and nothing is attached to an invocation error
that there is not. `Store.Reachable.wellFormed` says this of every store that a program reaches.
-/

namespace Wamp

namespace InvocationError

/-- The fields of an invocation error as they always are. -/
structure Normal (e : InvocationError) : Prop where
  uri : Uri.isUri .default e.uri = true
  args : e.args ≠ some []
  kwargs : e.kwargs ≠ some []
  details : e.details ≠ some []
  rendered : e.Rendered

/-- What is not empty is kept. -/
theorem nonEmpty_eq_self {α : Type _} {items : Option (List α)} (h : items ≠ some []) :
    nonEmpty items = items := by
  rcases items with - | (- | ⟨a, rest⟩)
  · rfl
  · exact absurd rfl h
  · rfl

/-- What is kept is not empty. -/
theorem nonEmpty_ne_nil {α : Type _} (items : Option (List α)) : nonEmpty items ≠ some [] := by
  rcases items with - | (- | ⟨a, rest⟩)
  · exact nofun
  · exact nofun
  · exact nofun

/-- An invocation error is normal when it is made. -/
theorem Constructed.normal {e : InvocationError} (h : e.Constructed) : e.Normal := by
  have hrendered := h.rendered
  obtain ⟨derived, uri, init, hmade⟩ := h
  obtain ⟨valid, hvalid, rfl⟩ := map_eq_ok_iff.mp hmade
  obtain ⟨huri, rfl⟩ := Uri.validate_eq_ok_iff.mp hvalid
  exact ⟨huri, nonEmpty_ne_nil init.args, nonEmpty_ne_nil init.kwargs,
    nonEmpty_ne_nil init.details, hrendered⟩

/-- An invocation error that takes over the fields of a normal one is normal. -/
theorem Normal.overwriteWith {other : InvocationError} (h : other.Normal) (e : InvocationError) :
    (e.overwriteWith other).Normal :=
  ⟨h.uri, h.args, h.kwargs, h.details, rfl⟩

/-- An invocation error that is rebuilt from a payload is made like any other. -/
theorem constructed_of_ofPayload {v : Value} {e : InvocationError} (h : ofPayload v = .ok e) :
    e.Constructed := by
  unfold ofPayload at h
  split at h
  · exact ⟨none, _, _, h⟩
  · cases h

/-- The invocation error that a registry makes for a failure is made like any other. -/
theorem constructed_of_newReport {σ : Type} {r : Registry σ} {c : Option FailureClass}
    {kindName : String} {args : List Value} {e : InvocationError} {d : Option Diagnostic}
    (h : r.newReport c kindName args = .ok (.new e, d)) : e.Constructed := by
  obtain ⟨e', hmade, heq⟩ := map_eq_ok_iff.mp h
  cases heq
  exact ⟨none, _, _, hmade⟩

/-- What a registry newly reports for a failure is made like any other. -/
theorem constructed_of_toInvocation {σ : Type} {r : Registry σ} {s : Store} {failure : Thrown}
    {e : InvocationError} {d : Option Diagnostic} (h : r.toInvocation s failure = .ok (.new e, d)) :
    e.Constructed := by
  unfold Registry.toInvocation at h
  split at h
  · cases h
  · split at h
    · cases h
    · exact constructed_of_newReport h
  · exact constructed_of_newReport h

end InvocationError

namespace Store

/-- The stores that programs reach. -/
inductive Reachable : Store → Prop
  | empty : Reachable .empty
  /-- An invocation error is made, be it by a handler or by a factory. -/
  | made {s : Store} {e : InvocationError} (h : Reachable s) (id : InvocationId)
      (he : e.Constructed) : Reachable (s.setFields id e)
  /-- An invocation error is rebuilt from a payload. -/
  | rebuilt {s : Store} {v : Value} {e : InvocationError} (h : Reachable s) (id : InvocationId)
      (he : InvocationError.ofPayload v = .ok e) : Reachable (s.setFields id e)
  /-- A registry translates a failure. -/
  | translated {s : Store} {σ : Type} (h : Reachable s) (r : Registry σ) (failure : Thrown)
      (fresh : Nat) : Reachable (Peer.step ⟨r, s⟩ (.toInvocation failure fresh)).peer.store
  /-- What is to be reported for a failure is set or cleared. -/
  | called {s : Store} {c : AttachmentCall} (h : Reachable s) (hknown : c.Known s) :
      Reachable (s.call c)

/-- A store that holds normal invocation errors only, and all that is attached to. -/
structure WellFormed (s : Store) : Prop where
  normal : ∀ id e, s.invocation? id = some e → e.Normal
  held : ∀ key id, s.attachments.get? key = some id → ∃ e, s.invocation? id = some e

/-- The store without anything in it is well formed. -/
theorem wellFormed_empty : Store.empty.WellFormed := ⟨nofun, nofun⟩

/-- Keeping a normal invocation error keeps a store well formed. -/
theorem WellFormed.setFields {s : Store} (h : s.WellFormed) (id : InvocationId)
    {e : InvocationError} (he : e.Normal) : (s.setFields id e).WellFormed := by
  refine ⟨fun x e' hx => ?normal, fun o x hx => ?held⟩
  case normal =>
    by_cases heq : id = x
    · rw [← heq, invocation?_setFields_self] at hx
      exact Option.some.inj hx ▸ he
    · rw [invocation?_setFields_of_ne heq] at hx
      exact h.normal x e' hx
  case held =>
    by_cases heq : id = x
    · exact ⟨e, heq ▸ invocation?_setFields_self s id e⟩
    · rw [invocation?_setFields_of_ne heq]
      exact h.held o x hx

/-- Attaching an object to an invocation error of the store keeps the store well formed. -/
theorem WellFormed.attach {s : Store} (h : s.WellFormed) (key : Identity) {id : InvocationId}
    {e : InvocationError} (hid : s.invocation? id = some e) : (s.attach key id).WellFormed := by
  refine ⟨h.normal, fun x i hx => ?_⟩
  rcases Assoc.get?_of_get?_put hx with rfl | hx
  · exact ⟨e, hid⟩
  · exact h.held x i hx

/-- Clearing an object keeps a store well formed. -/
theorem WellFormed.clear {s : Store} (h : s.WellFormed) (failure : Thrown) :
    (s.call (.clear failure)).WellFormed := by
  show (s.clearAttached failure).1.WellFormed
  unfold clearAttached
  split
  · exact ⟨h.normal, fun x i hx => h.held x i (Assoc.get?_of_get?_erase hx)⟩
  · exact h

/-- Setting what is to be reported to an invocation error of the store keeps the store well
formed. -/
theorem WellFormed.set {s : Store} (h : s.WellFormed) (failure : Thrown) {err : InvocationId}
    {e : InvocationError} (herr : s.invocation? err = some e) :
    (s.call (.set failure err)).WellFormed := by
  cases failure with
  | primitive p => exact h
  | object o => exact h.attach (.object o.id) herr
  | invocation target =>
    show (s.overwrite target err).WellFormed
    unfold overwrite
    split
    · next t e' _ he' => exact h.setFields target ((h.normal err e' he').overwriteWith t)
    · exact h

/-- Translating a failure keeps a store well formed. -/
theorem WellFormed.translated {s : Store} (h : s.WellFormed) {σ : Type} (r : Registry σ)
    (failure : Thrown) (fresh : Nat) :
    (Peer.step ⟨r, s⟩ (.toInvocation failure fresh)).peer.store.WellFormed := by
  rw [Peer.step]
  cases hreport : r.toInvocation s failure with
  | error fault => exact h
  | ok result =>
    obtain ⟨report, d⟩ := result
    cases report with
    | existing id => exact h
    | new e =>
      have hmade := InvocationError.constructed_of_toInvocation hreport
      exact h.setFields ⟨fresh⟩ hmade.normal

/-- Every store that a program reaches is well formed. -/
theorem Reachable.wellFormed {s : Store} (h : s.Reachable) : s.WellFormed := by
  induction h with
  | empty => exact wellFormed_empty
  | made _ id he ih => exact ih.setFields id he.normal
  | rebuilt _ id he ih => exact ih.setFields id (InvocationError.constructed_of_ofPayload he).normal
  | translated _ r failure fresh ih => exact ih.translated r failure fresh
  | @called s c _ hknown ih =>
    cases c with
    | clear failure => exact ih.clear failure
    | set failure err =>
      obtain ⟨e, he⟩ := hknown failure err rfl
      exact ih.set failure he

end Store

end Wamp
