import Wamp.Proofs.Failure.Attachment
import Wamp.Proofs.Message.RoundTrip
import Wamp.Proofs.Registry.History

/-!
# Replies to failed invocations

What a peer replies to an invocation that failed, from the handler of the callee to the failure that
is raised at the caller. A reply is made of the URI for the class of the failure and of the
arguments that it carries; `replyTo` is that message, and a registry with a history always finds it
(`Sound.answer_toReply`). Every such reply is read by a peer, except for the one to a handler that
throws `nan`, which no peer reads (`message_toReply`). The failure of an error object reaches the
factory of the caller for its URI, arguments and all, and what this factory returns is raised
(`toFailure_parse_toReply`): `Raises` tells what that is for something that is there already, for a
new object, for a new invocation error and for a fault.
-/

namespace Wamp

namespace Thrown

/-- The exact class of what was thrown, which only objects have. -/
def class? : Thrown → Option FailureClass
  | .object o => o.body.class?
  | _ => none

/-- The positional arguments to report for what was thrown. -/
def positionalArgs : Thrown → List Value
  | .primitive p => p.positionalArgs
  | .object o => o.body.positionalArgs
  | .invocation _ => []

end Thrown

/-! ## Arguments -/

/-- The positional arguments that a failure reports: the list of values that was put on it, if they
may all travel, and otherwise its message, unless that is empty. -/
inductive Failure.Reports (f : Failure) : List Value → Prop
  | args {items : List Value} (hargs : f.args = some (.list items))
      (hwire : ∀ v ∈ items, v.IsWire) : Reports f (items.map Value.stripped)
  | message (hargs : ∀ items, f.args = some (.list items) → ¬ ∀ v ∈ items, v.IsWire)
      (hmessage : f.message ≠ "") : Reports f [.string f.message]
  | nothing (hargs : ∀ items, f.args = some (.list items) → ¬ ∀ v ∈ items, v.IsWire)
      (hmessage : f.message = "") : Reports f []

/-- The positional arguments of a failure are those that it reports. -/
theorem Failure.reports_positionalArgs (f : Failure) : f.Reports f.positionalArgs := by
  unfold positionalArgs
  split
  · next ws hws =>
    obtain ⟨v, hv, hlist⟩ := Option.bind_eq_some_iff.mp hws
    obtain ⟨items, rfl, hwire, rfl⟩ :=
      Schema.list_eq_ok_iff.mp (Checked.result?_eq_some_iff.mp hlist)
    rw [Value.strippedItems_eq_map]
    exact .args hv (Value.isWire_list_iff.mp hwire)
  · next hnone =>
    -- Had the arguments been a list of values that may travel, they would have been taken.
    have hargs : ∀ items, f.args = some (.list items) → ¬ ∀ v ∈ items, v.IsWire := by
      intro items hitems hwire
      have hlist : Schema.list (.list items) = .ok (Value.strippedItems items) :=
        Schema.list_eq_ok_iff.mpr ⟨items, rfl, .list hwire, rfl⟩
      rw [hitems, Option.bind_some, Checked.result?_eq_some_iff.mpr hlist] at hnone
      cases hnone
    split
    · next hmessage => exact .nothing hargs hmessage
    · next hmessage => exact .message hargs hmessage

/-- What is reported of something thrown that has no invocation error: its exact class if it has
one, the word for its kind, and its positional arguments. -/
inductive Thrown.Presents : Thrown → Option FailureClass → String → List Value → Prop
  | failure {id : ObjectId} {f : Failure} {args : List Value} (hargs : f.Reports args) :
      Presents (.object ⟨id, .failure f⟩) (some f.failureClass)
        (FailureClass.kindName (some f.failureClass)) args
  | plain (id : ObjectId) (c : Option FailureClass) :
      Presents (.object ⟨id, .plain c⟩) c (FailureClass.kindName c) []
  | function (id : ObjectId) : Presents (.object ⟨id, .function⟩) none "function" []
  | string (s : String) : Presents (.primitive (.string s)) none "string" [.string s]
  | number (n : Number) : Presents (.primitive (.number n)) none "number" [.number n]
  | bool (b : Bool) : Presents (.primitive (.bool b)) none "boolean" [.bool b]
  | undefined : Presents (.primitive .undefined) none "undefined" []
  | null : Presents (.primitive .null) none "object" []
  | bigint : Presents (.primitive .bigint) none "bigint" []
  | symbol : Presents (.primitive .symbol) none "symbol" []

/-- A primitive has no class and is its own argument, if it is an argument at all. -/
theorem Primitive.presents (p : Primitive) :
    (Thrown.primitive p).Presents none p.kindName p.positionalArgs := by
  cases p with
  | undefined => exact .undefined
  | null => exact .null
  | bool b => exact .bool b
  | number n => exact .number n
  | string s => exact .string s
  | bigint => exact .bigint
  | symbol => exact .symbol

/-- An object has the class and the arguments of its body. -/
theorem Object.presents (o : Object) :
    (Thrown.object o).Presents o.body.class? o.body.kindName o.body.positionalArgs := by
  obtain ⟨id, body⟩ := o
  cases body with
  | failure f => exact .failure f.reports_positionalArgs
  | plain c => exact .plain id c
  | function => exact .function id

/-- Arguments that a failure reports travel as they are. -/
theorem Failure.Reports.portable {f : Failure} {args : List Value} (h : f.Reports args) :
    (Value.list args).Portable := by
  cases h with
  | @args items hargs hwire =>
    have hportable := (Value.IsWire.list hwire).portable_stripped
    rwa [Value.stripped, Value.strippedItems_eq_map] at hportable
  | message hargs hmessage => simp [Value.Portable, Primitive.isWire]
  | nothing hargs hmessage => exact Value.portable_nil

/-- The positional arguments of a primitive travel as they are, except for `nan`. -/
theorem Primitive.portable_positionalArgs {p : Primitive} (h : p ≠ .number .nan) :
    (Value.list p.positionalArgs).Portable := by
  cases p with
  | number n =>
    have hn : n ≠ .nan := fun heq => h (congrArg Primitive.number heq)
    exact ⟨.list (List.forall_mem_singleton.mpr (.number hn)), by simp [positionalArgs]⟩
  | string s | bool b => simp [Value.Portable, positionalArgs, Primitive.isWire]
  | undefined | null | bigint | symbol => exact Value.portable_nil

/-- The positional arguments to report travel as they are, except for those of `nan`. -/
theorem Thrown.portable_positionalArgs {failure : Thrown}
    (h : failure ≠ .primitive (.number .nan)) : (Value.list failure.positionalArgs).Portable := by
  cases failure with
  | primitive p => exact Primitive.portable_positionalArgs fun heq => h (congrArg primitive heq)
  | object o =>
    obtain ⟨id, body⟩ := o
    cases body with
    | failure f => exact f.reports_positionalArgs.portable
    | plain c => exact Value.portable_nil
    | function => exact Value.portable_nil
  | invocation id => exact Value.portable_nil

/-! ## Invocation errors -/

namespace InvocationError

/-- Items that are dropped when they are empty are read as they were. -/
theorem getD_nonEmpty {α : Type _} (items : List α) : (nonEmpty (some items)).getD [] = items := by
  cases items <;> rfl

/-- An invocation error can be made of every URI and any arguments, and the reply with it has that
URI, those arguments and nothing else. -/
theorem exists_ofArgs {uri : String} (huri : Uri.isUri .default uri = true) (args : List Value) :
    ∃ e, ofArgs uri args = .ok e ∧ ∀ requestId,
      e.toErrorMessage requestId .invocation = ⟨.invocation, requestId, [], uri, args, []⟩ := by
  have hvalid := Uri.validate_eq_ok_iff.mpr ⟨huri, rfl⟩
  rw [ofArgs, make, ofClass, hvalid]
  refine ⟨_, rfl, fun requestId => ?_⟩
  rw [toErrorMessage, getD_nonEmpty]
  rfl

end InvocationError

namespace Registry

variable {σ : Type}

/-! ## The reply of the callee -/

/-- The URI that a registry reports for a class, the general one if it has none. -/
def reportedUri (r : Registry σ) (c : Option FailureClass) : String :=
  (c.bind r.classUris.get?).getD r.config.runtimeErrorUri

/-- The reply to an invocation whose handler threw something that has no invocation error yet. -/
def replyTo (r : Registry σ) (failure : Thrown) (requestId : Number) : ErrorMessage :=
  ⟨.invocation, requestId, [], r.reportedUri failure.class?, failure.positionalArgs, []⟩

/-- A sound registry reports URIs that every peer accepts. -/
theorem Sound.isUri_reportedUri {r : Registry σ} (h : r.Sound) (c : Option FailureClass) :
    Uri.isUri .default (r.reportedUri c) = true := by
  unfold reportedUri
  cases hc : c.bind r.classUris.get? with
  | none => exact Uri.isUri_default h.runtimeErrorUri
  | some uri =>
    obtain ⟨c', -, huri⟩ := Option.bind_eq_some_iff.mp hc
    exact Uri.isUri_default (h.classUris c' uri huri)

/-- The URI that is looked up for a failure is the one to report for its class. -/
theorem uriFor_fst (r : Registry σ) (c : Option FailureClass) (kindName : String) :
    (r.uriFor c kindName).1 = r.reportedUri c := by
  unfold uriFor reportedUri
  split
  · next h => rw [h, Option.getD_some]
  · next h => rw [h, Option.getD_none]

/-- A new invocation error has the URI that is reported for the class. -/
theorem newReport_of_ofArgs {r : Registry σ} {c : Option FailureClass} {kindName : String}
    {args : List Value} {e : InvocationError}
    (he : InvocationError.ofArgs (r.reportedUri c) args = .ok e) :
    r.newReport c kindName args = .ok (.new e, (r.uriFor c kindName).2) := by
  rw [← uriFor_fst r c kindName] at he
  show (InvocationError.ofArgs (r.uriFor c kindName).1 args).map _ = _
  rw [he]
  rfl

/-- What is reported for something that has no invocation error yet is a new one, made of what it
presents. -/
theorem toInvocation_of_unattached (r : Registry σ) {s : Store} {failure : Thrown}
    (hnew : ∀ id, failure ≠ .invocation id) (hfree : s.attached? failure = none) :
    ∃ kindName, failure.Presents failure.class? kindName failure.positionalArgs ∧
      r.toInvocation s failure =
        r.newReport failure.class? kindName failure.positionalArgs := by
  cases failure with
  | primitive p => exact ⟨p.kindName, p.presents, rfl⟩
  | object o =>
    rw [toInvocation, hfree]
    exact ⟨o.body.kindName, o.presents, rfl⟩
  | invocation id => exact absurd rfl (hnew id)

/-- What is reported for a failure: itself, if it is an invocation error; the invocation error that
it is attached to, if it is an object that is; or else a new one. -/
theorem toInvocation_cases (r : Registry σ) (s : Store) (failure : Thrown) :
    (∃ id, failure = .invocation id ∧ r.toInvocation s failure = .ok (.existing id, none)) ∨
      (∃ o id, failure = .object o ∧ s.attached? (.object o) = some id ∧
        r.toInvocation s failure = .ok (.existing id, none)) ∨
      (s.attached? failure = none ∧ (∀ id, failure ≠ .invocation id) ∧
        ∃ kind, failure.Presents failure.class? kind failure.positionalArgs ∧
          r.toInvocation s failure =
            r.newReport failure.class? kind failure.positionalArgs) := by
  cases failure with
  | invocation id => exact .inl ⟨id, rfl, rfl⟩
  | primitive p => exact .inr (.inr ⟨rfl, nofun, r.toInvocation_of_unattached nofun rfl⟩)
  | object o =>
    cases hattached : s.attached? (.object o) with
    | none => exact .inr (.inr ⟨rfl, nofun, r.toInvocation_of_unattached nofun hattached⟩)
    | some id =>
      refine .inr (.inl ⟨o, id, rfl, hattached, ?_⟩)
      rw [toInvocation, hattached]

/-- A sound registry always finds a reply, and it is the one for the class and the arguments. -/
theorem Sound.answer_toReply {r : Registry σ} (h : r.Sound) {s : Store} {failure : Thrown}
    (hnew : ∀ id, failure ≠ .invocation id) (hfree : s.attached? failure = none)
    (requestId : Number) :
    (Peer.step ⟨r, s⟩ (.toReply failure requestId)).answer =
      .ok (.reply (r.replyTo failure requestId)) := by
  obtain ⟨kindName, -, hreport⟩ := r.toInvocation_of_unattached hnew hfree
  obtain ⟨e, he, hmessage⟩ := InvocationError.exists_ofArgs
    (h.isUri_reportedUri failure.class?) failure.positionalArgs
  rw [Peer.step, hreport, newReport_of_ofArgs he]
  exact congrArg (fun m => Except.ok (Answer.reply m)) (hmessage requestId)

/-- A reply of a sound registry is valid if its arguments travel as they are. -/
theorem Sound.valid_replyTo {r : Registry σ} (h : r.Sound) {failure : Thrown} {requestId : Number}
    (hid : requestId.IsId) (hargs : (Value.list failure.positionalArgs).Portable) :
    (r.replyTo failure requestId).Valid where
  requestId := hid
  details := Value.portable_empty
  error := h.isUri_reportedUri failure.class?
  args := hargs
  kwargs := Value.portable_empty

/-- A peer with an accepted configuration and any history replies to every handler that throws
something without an invocation error. What a peer reads of the reply is the reply itself, unless
the handler threw `nan`: then a peer reads nothing. -/
theorem message_toReply {runtimeErrorUri uriPolicy : Value} {sink : Sink} {config : RegistryConfig}
    (hconfig : RegistryConfig.resolve runtimeErrorUri uriPolicy sink = .ok config)
    (turns : List (Turn σ)) {s : Store} {failure : Thrown}
    (hnew : ∀ id, failure ≠ .invocation id) (hfree : s.attached? failure = none)
    {requestId : Number} (hid : requestId.IsId) :
    ∃ reply, (Peer.step ⟨(ofConfig config).after turns, s⟩ (.toReply failure requestId)).answer =
        .ok (.reply reply) ∧
      (failure ≠ .primitive (.number .nan) →
        Schema.message (.list reply.wire) = .ok (.error reply)) ∧
      (failure = .primitive (.number .nan) → ∀ m, Schema.message (.list reply.wire) ≠ .ok m) := by
  have hsound := (sound_ofConfig (σ := σ) hconfig).after turns
  refine ⟨_, hsound.answer_toReply hnew hfree requestId, fun hnan => ?_, ?_⟩
  -- All parts of the reply are valid, so it is read as it is.
  · have hargs := failure.portable_positionalArgs hnan
    exact ErrorMessage.message_wire (hsound.valid_replyTo hid hargs)
  -- The reply to `nan` has it as its argument, and only what may travel is read.
  · rintro rfl m hm
    have hwire := Value.isWire_list_iff.mp (ErrorMessage.isWire_args_of_message hm)
    have hnan := Value.isWire_primitive_iff.mp (hwire (.number .nan) List.mem_cons_self)
    cases hnan

/-- The reply for an error whose arguments cannot travel is read with its message in their place. -/
theorem message_toReply_error :
    ∃ reply, (Peer.step ⟨(ofConfig .default : Registry Unit).after
          [⟨.empty, .registerUri (.predefined .error) "com.example.bad"⟩, ⟨.empty, .close⟩],
        .empty⟩ (.toReply (.object ⟨⟨1⟩, .failure
          ⟨.plain .error "boom", none, none, some (.list [.number .nan])⟩⟩) (.int 5))).answer =
        .ok (.reply reply) ∧ Schema.message (.list reply.wire) = .ok (.error reply) := by
  have hid : (Number.int 5).IsId := ⟨5, rfl, by decide, by decide⟩
  have hfree : Store.empty.attached? (.object ⟨⟨1⟩, .failure
      ⟨.plain .error "boom", none, none, some (.list [.number .nan])⟩⟩) = none := rfl
  obtain ⟨reply, hanswer, hread, -⟩ := message_toReply RegistryConfig.resolve_undefined
    [⟨.empty, .registerUri (.predefined .error) "com.example.bad"⟩, ⟨.empty, .close⟩]
    (fun i h => by cases h) hfree hid
  exact ⟨reply, hanswer, hread nofun⟩

/-- The reply to a handler that throws `nan` is not read. -/
theorem message_toReply_nan :
    ∃ reply, (Peer.step ⟨(ofConfig .default : Registry Unit), .empty⟩
        (.toReply (.primitive (.number .nan)) (.int 5))).answer = .ok (.reply reply) ∧
      reply = ⟨.invocation, .int 5, [], "wamp.error.runtime_error", [.number .nan], []⟩ ∧
      ∀ m, Schema.message (.list reply.wire) ≠ .ok m := by
  refine ⟨_, rfl, rfl, fun m hm => ?_⟩
  cases hm

/-! ## The failure at the caller -/

/-- The URI that a registry with a history reports for a class: the one that was last registered for
it with success, or the general one if there is none. -/
def uriAfter (config : RegistryConfig) (turns : List (Turn σ)) (c : FailureClass) : String :=
  ((ofConfig config).lastUri? c turns).getD config.runtimeErrorUri

/-- The table of a registry with a history agrees with the history. -/
theorem reportedUri_after (config : RegistryConfig) (turns : List (Turn σ)) (c : FailureClass) :
    ((ofConfig config).after turns).reportedUri (some c) = uriAfter config turns c := by
  have hempty : (ofConfig config : Registry σ).classUris.get? c = none := rfl
  rw [reportedUri, Option.bind_some, get?_classUris_after, hempty, Option.or_none, config_after]
  rfl

/-- A message whose URI has a factory becomes what the factory builds of it. -/
theorem toFailure_of_factoryFor {r : Registry σ} {m : ErrorMessage} {factory : Factory σ}
    (h : r.factoryFor m.error = .ok factory) (state : σ) :
    r.toFailure state m = factory.build state m := by
  rw [toFailure, h]

/-- A factory is looked up in vain only because there is none. -/
theorem eq_noEntry_of_factoryFor_error {r : Registry σ} {uri : String} {fault : Fault}
    (h : r.factoryFor uri = .error fault) : fault = .noEntry uri := by
  unfold factoryFor UriMap.resolve at h
  split at h
  · cases h
  · exact (Except.error.inj h).symm

/-- A message whose URI has no factory becomes a failure itself. -/
theorem toFailure_of_factoryFor_error {r : Registry σ} {m : ErrorMessage} {fault : Fault}
    (h : r.factoryFor m.error = .error fault) (state : σ) :
    r.toFailure state m = .ok (.object (.failure (.ofContent (.response m)))) := by
  obtain rfl := eq_noEntry_of_factoryFor_error h
  rw [toFailure, h]

/-- What comes of an error message when its factory returns the given result. -/
inductive Raises (r : Registry σ) (s : Store) (fresh : Nat) : Except Fault Product → Outcome σ → Prop
  /-- Something that is there already is raised itself. -/
  | existing (thrown : Thrown) :
      Raises r s fresh (.ok (.existing thrown)) ⟨⟨r, s⟩, .ok (.failure thrown), none⟩
  /-- A new object is raised under its new identity, with the body that the factory gave it. -/
  | object (body : Body) :
      Raises r s fresh (.ok (.object body)) ⟨⟨r, s⟩, .ok (.failure (.object ⟨⟨fresh⟩, body⟩)), none⟩
  /-- A new invocation error is raised under its new identity, where the store then has the fields
  that the factory gave it. Every other invocation error keeps its own. -/
  | invocation {s' : Store} {e : InvocationError} (hself : s'.invocation? ⟨fresh⟩ = some e)
      (hothers : ∀ id, id ≠ ⟨fresh⟩ → s'.invocation? id = s.invocation? id)
      (hattachments : s'.attachments = s.attachments) :
      Raises r s fresh (.ok (.invocation e))
        ⟨⟨r, s'⟩, .ok (.failure (.invocation ⟨fresh⟩)), none⟩
  /-- A fault of the factory is passed on, whatever it is. -/
  | fault (fault : Fault) : Raises r s fresh (.error fault) ⟨⟨r, s⟩, .error fault, none⟩

section

variable {r : Registry σ} {s : Store} {fresh : Nat} {o : Outcome σ}

/-- What comes of a new object. -/
theorem Raises.eq_of_object {body : Body} (h : Raises r s fresh (.ok (.object body)) o) :
    o = ⟨⟨r, s⟩, .ok (.failure (.object ⟨⟨fresh⟩, body⟩)), none⟩ := by
  cases h
  rfl

/-- What comes of a fault. -/
theorem Raises.eq_of_error {fault : Fault} (h : Raises r s fresh (.error fault) o) :
    o = ⟨⟨r, s⟩, .error fault, none⟩ := by
  cases h
  rfl

/-- Whatever a factory returns, the tables and the attachments stay as they are, and nothing is
noted. -/
theorem Raises.unchanged {result : Except Fault Product} (h : Raises r s fresh result o) :
    o.peer.registry = r ∧ o.peer.store.attachments = s.attachments ∧ o.diagnostic = none := by
  cases h with
  | existing | object | fault => exact ⟨rfl, rfl, rfl⟩
  | invocation _ _ hattachments => exact ⟨rfl, hattachments, rfl⟩

end

/-- A peer raises what the message becomes. -/
theorem raises_toFailure (r : Registry σ) (s : Store) (m : ErrorMessage) (state : σ) (fresh : Nat) :
    Raises r s fresh (r.toFailure state m) (Peer.step ⟨r, s⟩ (.toFailure m state fresh)) := by
  rw [Peer.step]
  cases r.toFailure state m with
  | error fault => exact .fault fault
  | ok product =>
    cases product with
    | existing thrown => exact .existing thrown
    | object body => exact .object body
    | invocation e =>
      have hself := Store.invocation?_setFields_self s ⟨fresh⟩ e
      exact .invocation hself (fun id hid => Store.invocation?_setFields_of_ne hid.symm s e) rfl

/-- A peer raises what the factory for the URI of the message returns. -/
theorem raises_of_factoryFor {r : Registry σ} {m : ErrorMessage} {factory : Factory σ}
    (h : r.factoryFor m.error = .ok factory) (s : Store) (state : σ) (fresh : Nat) :
    Raises r s fresh (factory.build state m) (Peer.step ⟨r, s⟩ (.toFailure m state fresh)) := by
  have hraises := r.raises_toFailure s m state fresh
  rwa [toFailure_of_factoryFor h] at hraises

/-- A peer raises the message itself when there is no factory for its URI. -/
theorem step_toFailure_of_factoryFor_error {r : Registry σ} {m : ErrorMessage} {fault : Fault}
    (h : r.factoryFor m.error = .error fault) (s : Store) (state : σ) (fresh : Nat) :
    Peer.step ⟨r, s⟩ (.toFailure m state fresh) =
      ⟨⟨r, s⟩, .ok (.failure (.object ⟨⟨fresh⟩, .failure (.ofContent (.response m))⟩)), none⟩ := by
  have hraises := r.raises_toFailure s m state fresh
  rw [toFailure_of_factoryFor_error h] at hraises
  exact hraises.eq_of_object

/-- What becomes of an error object on its way from the handler of the callee to the caller. The
callee, with an accepted configuration and any history, replies with a message that is read as an
error with the URI last registered for the class of the object and the arguments that it reports.
The caller, with any registry, raises what its factory for this URI builds of the message, be it
there already or new, or the message as a failure if it has no such factory. -/
theorem toFailure_parse_toReply {τ : Type} {runtimeErrorUri uriPolicy : Value} {sink : Sink}
    {config : RegistryConfig}
    (hconfig : RegistryConfig.resolve runtimeErrorUri uriPolicy sink = .ok config)
    (turns : List (Turn σ)) {s : Store} {id : ObjectId} {f : Failure}
    (hfree : s.attached? (.object ⟨id, .failure f⟩) = none) {requestId : Number}
    (hid : requestId.IsId) (caller : Registry τ) (store : Store) (state : τ) (fresh : Nat) :
    ∃ reply args m, (Peer.step ⟨(ofConfig config).after turns, s⟩
          (.toReply (.object ⟨id, .failure f⟩) requestId)).answer = .ok (.reply reply) ∧
      f.Reports args ∧
      m = ⟨.invocation, requestId, [], uriAfter config turns f.failureClass, args, []⟩ ∧
      Message.parse (.list reply.wire) = .ok (.error m) ∧
      (∀ factory, caller.factoryFor (uriAfter config turns f.failureClass) = .ok factory →
        Raises caller store fresh (factory.build state m)
          (Peer.step ⟨caller, store⟩ (.toFailure m state fresh))) ∧
      ∀ fault, caller.factoryFor (uriAfter config turns f.failureClass) = .error fault →
        (Peer.step ⟨caller, store⟩ (.toFailure m state fresh)).answer =
          .ok (.failure (.object ⟨⟨fresh⟩, .failure (.ofContent (.response m))⟩)) := by
  have hsound := (sound_ofConfig (σ := σ) hconfig).after turns
  have hreports := f.reports_positionalArgs
  -- The URI in the reply comes from the table of the callee, the one in the statement from its
  -- history.
  have huri := reportedUri_after config turns f.failureClass
  have hnew : ∀ i, Thrown.object ⟨id, .failure f⟩ ≠ .invocation i := fun _ => nofun
  refine ⟨_, f.positionalArgs, _, hsound.answer_toReply hnew hfree requestId, hreports, rfl,
    ?parsed, fun factory hfactory => ?built, fun fault hfault => ?wrapped⟩
  case parsed =>
    rw [Message.parse_eq_ok_iff, ← huri]
    exact ErrorMessage.message_wire (hsound.valid_replyTo hid hreports.portable)
  case built => exact raises_of_factoryFor hfactory store state fresh
  case wrapped =>
    exact congrArg Outcome.answer (step_toFailure_of_factoryFor_error hfault store state fresh)

/-- An error of a class with two registrations, an invalid one and a late one is reported under the
second, with its arguments but for a reserved key, and reaches the factory for a prefix. -/
theorem toFailure_parse_toReply_prefixed :
    ∃ reply, (Peer.step ⟨(ofConfig ⟨"com.example", true, .console⟩ : Registry Unit).after
          [⟨.empty, .registerUri ⟨.error, some ⟨1, "AppError"⟩⟩ "com.example.old"⟩,
            ⟨.empty, .registerUri ⟨.error, some ⟨1, "AppError"⟩⟩ "com.example.bad"⟩,
            ⟨.empty, .registerUri ⟨.error, some ⟨1, "AppError"⟩⟩ "com.example.Loose"⟩,
            ⟨.empty, .close⟩,
            ⟨.empty, .registerUri ⟨.error, some ⟨1, "AppError"⟩⟩ "com.example.late"⟩],
          .empty⟩ (.toReply (.object ⟨⟨1⟩, .failure ⟨.plain .error "boom", some ⟨1, "AppError"⟩,
            none, some (.list [.dict [("__proto__", .null), ("k", .bool true)]])⟩⟩)
            (.int 5))).answer = .ok (.reply reply) ∧
      Message.parse (.list reply.wire) = .ok (.error
        ⟨.invocation, .int 5, [], "com.example.bad", [.dict [("k", .bool true)]], []⟩) ∧
      (Peer.step ⟨(ofConfig .default : Registry Unit).after
          [⟨.empty, .registerResponse "com.example" (some ⟨"uri",
            fun _ m => .ok (.object (.failure (.ofContent (.plain .error m.error))))⟩) .prefixed⟩],
          .empty⟩ (.toFailure
            ⟨.invocation, .int 5, [], "com.example.bad", [.dict [("k", .bool true)]], []⟩
            () 7)).answer =
        .ok (.failure (.object
          ⟨⟨7⟩, .failure (.ofContent (.plain .error "com.example.bad"))⟩)) := by
  have hconfig : RegistryConfig.resolve (.string "com.example") (.string "strict") .console =
      .ok ⟨"com.example", true, .console⟩ := rfl
  have hfree : Store.empty.attached? (.object ⟨⟨1⟩, .failure ⟨.plain .error "boom",
      some ⟨1, "AppError"⟩, none,
      some (.list [.dict [("__proto__", .null), ("k", .bool true)]])⟩⟩) = none := rfl
  have hid : (Number.int 5).IsId := ⟨5, rfl, by decide, by decide⟩
  obtain ⟨reply, args, m, hanswer, hreports, rfl, hparse, hbuilt, -⟩ :=
    toFailure_parse_toReply hconfig
      [⟨.empty, .registerUri ⟨.error, some ⟨1, "AppError"⟩⟩ "com.example.old"⟩,
        ⟨.empty, .registerUri ⟨.error, some ⟨1, "AppError"⟩⟩ "com.example.bad"⟩,
        ⟨.empty, .registerUri ⟨.error, some ⟨1, "AppError"⟩⟩ "com.example.Loose"⟩,
        ⟨.empty, .close⟩,
        ⟨.empty, .registerUri ⟨.error, some ⟨1, "AppError"⟩⟩ "com.example.late"⟩]
      hfree hid
      ((ofConfig .default).after
        [⟨.empty, .registerResponse "com.example" (some ⟨"uri",
          fun _ m => .ok (.object (.failure (.ofContent (.plain .error m.error))))⟩) .prefixed⟩])
      .empty () 7
  -- The list on the error may travel, so the message is not among what it reports.
  obtain rfl : args = [.dict [("k", .bool true)]] := by
    cases hreports with
    | args hargs =>
      cases hargs
      rfl
    | message hargs => exact absurd (by simp [Primitive.isWire]) (hargs _ rfl)
    | nothing hargs => exact absurd (by simp [Primitive.isWire]) (hargs _ rfl)
  exact ⟨reply, hanswer, hparse, congrArg Outcome.answer (hbuilt _ rfl).eq_of_object⟩

end Registry

end Wamp
