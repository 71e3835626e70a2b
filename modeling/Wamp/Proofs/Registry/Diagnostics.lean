import Mathlib.Data.Finset.Card
import Mathlib.Data.List.Induction
import Wamp.Proofs.Registry.Registration

/-!
# What the log of a registry accounts for

A turn notes at most one diagnostic. `Registry.Notes` lists the occasions: something is registered
under a key that has been registered before, a failure is reported under the general URI, or the
invocation error to report for a failure is set while the failure is one itself or is attached to
one. Each registration that succeeds therefore either adds a key to its table or is noted as a
replacement (`Ledger.counted_after`), so the log and the number of distinct keys together count the
registrations of any history (`Registry.accounts_after`).
-/

namespace Wamp

/-- Whether a diagnostic tells that a factory takes the place of another. -/
def Diagnostic.replacesFactory : Diagnostic → Bool
  | .replacingFactory .. => true
  | _ => false

/-- Whether a diagnostic tells that a class is given another URI. -/
def Diagnostic.replacesUri : Diagnostic → Bool
  | .replacingUri .. => true
  | _ => false

/-- What was thrown presents one class and one word for its kind. -/
theorem Thrown.Presents.unique {failure : Thrown} {c? c?' : Option FailureClass}
    {kind kind' : String} {args args' : List Value} (h : failure.Presents c? kind args)
    (h' : failure.Presents c?' kind' args') : c? = c?' ∧ kind = kind' := by
  cases h <;> cases h' <;> exact ⟨rfl, rfl⟩

/-! ## The size of a table -/

/-- A put makes a table longer by a key that is new. -/
theorem Assoc.length_put {κ ν : Type _} [DecidableEq κ] (key : κ) (value : ν)
    (table : Assoc κ ν) : (put key value table).length =
      table.length + if (get? key table).isSome then 0 else 1 := by
  induction table with
  | nil => rfl
  | cons entry rest ih =>
    by_cases h : entry.1 = key
    · simp [put, get?, h]
    · simp only [put, get?, h, if_false, List.length_cons, ih]
      omega

/-- A registration makes a map larger by a URI and match policy that are new. -/
theorem UriMap.size_insert {V : Type _} (m : UriMap V) (uri : String) (value : V)
    (policy : MatchPolicy) : (m.insert uri value policy).size =
      m.size + if (m.registered? uri policy).isSome then 0 else 1 := by
  have hsize (m : UriMap V) :
      m.size = (m.table .exact).length + (m.table .prefixed).length + (m.table .wildcard).length :=
    rfl
  rw [hsize, hsize m, registered?, insert, table_modify, table_modify, table_modify]
  -- Only the table of the policy has changed.
  cases policy <;> simp [Assoc.length_put] <;> omega

namespace Registry

variable {σ : Type}

/-! ## The log -/

/-- The diagnostics of a sequence of turns, in the order of the turns. -/
def log (r : Registry σ) (turns : List (Turn σ)) : List Diagnostic :=
  (r.outcomes turns).filterMap (·.diagnostic)

/-- The URI and the match policy that a turn registers a factory for, if it is such a registration
and succeeds. -/
def pairGiven? (r : Registry σ) (t : Turn σ) : Option (String × MatchPolicy) :=
  match t.operation, (r.outcome t).answer with
  | .registerResponse uri _ matching, .ok _ => some (uri, matching)
  | _, _ => none

/-- The class that a turn registers the URI of, if it is such a registration and succeeds. -/
def classGiven? (r : Registry σ) (t : Turn σ) : Option FailureClass :=
  match t.operation, (r.outcome t).answer with
  | .registerUri c _, .ok _ => some c
  | _, _ => none

/-- The URIs and match policies of the registrations of factories that succeed, in the order of the
turns. -/
def registeredPairs (r : Registry σ) (turns : List (Turn σ)) : List (String × MatchPolicy) :=
  (r.trace turns).filterMap fun (r, t) => r.pairGiven? t

/-- The classes of the registrations of URIs that succeed, in the order of the turns. -/
def registeredClasses (r : Registry σ) (turns : List (Turn σ)) : List FailureClass :=
  (r.trace turns).filterMap fun (r, t) => r.classGiven? t

/-- A history is traced from its first part on. -/
theorem trace_append (r : Registry σ) (before later : List (Turn σ)) :
    r.trace (before ++ later) = r.trace before ++ (r.after before).trace later := by
  induction before generalizing r with
  | nil => rfl
  | cons t before ih => exact congrArg ((r, t) :: ·) (ih (r.turn t))

/-- What is collected from a history with one more turn at its end. -/
theorem filterMap_trace_concat {β : Type} (given? : Registry σ → Turn σ → Option β)
    (r : Registry σ) (turns : List (Turn σ)) (t : Turn σ) :
    (r.trace (turns ++ [t])).filterMap (fun (r, t) => given? r t) =
      (r.trace turns).filterMap (fun (r, t) => given? r t) ++
        (given? (r.after turns) t).toList := by
  have hlast : [(r.after turns, t)].filterMap (fun (r, t) => given? r t) =
      (given? (r.after turns) t).toList := by
    simp only [List.filterMap_cons, List.filterMap_nil]
    cases given? (r.after turns) t <;> rfl
  rw [trace_append, List.filterMap_append, ← hlast]
  rfl

/-- The log of a turn and of those before and after it. -/
theorem log_append_cons (r : Registry σ) (before : List (Turn σ)) (t : Turn σ)
    (later : List (Turn σ)) : r.log (before ++ t :: later) =
      r.log before ++ ((r.after before).outcome t).diagnostic.toList ++
        ((r.after before).turn t).log later := by
  have hturn : (r.after before).log (t :: later) =
      ((r.after before).outcome t).diagnostic.toList ++ ((r.after before).turn t).log later := by
    simp only [log, outcomes, trace, List.map_cons, List.filterMap_cons]
    cases ((r.after before).outcome t).diagnostic <;> rfl
  rw [List.append_assoc, ← hturn, log, outcomes, trace_append, List.map_append,
    List.filterMap_append]
  rfl

/-! ## What a turn notes -/

/-- What a turn notes, and the occasions for it, where `Registered` tells for which URIs and match
policies there is a factory, and `uri?` the URI of each class that has one. -/
inductive Notes (r : Registry σ) (Registered : String → MatchPolicy → Prop)
    (uri? : FailureClass → Option String) : Turn σ → Diagnostic → Prop
  /-- A factory is registered for a URI and match policy that there is a factory for. -/
  | factory {s : Store} {uri : String} {factory? : Option (Factory σ)} {matching : MatchPolicy}
      (hdone : (r.outcome ⟨s, .registerResponse uri factory? matching⟩).answer = .ok .done)
      (hregistered : Registered uri matching) :
      Notes r Registered uri? ⟨s, .registerResponse uri factory? matching⟩
        (.replacingFactory uri matching)
  /-- A URI is registered for a class that has one. -/
  | uri {s : Store} {c : FailureClass} {old uri : String}
      (hdone : (r.outcome ⟨s, .registerUri c uri⟩).answer = .ok .done) (hold : uri? c = some old) :
      Notes r Registered uri? ⟨s, .registerUri c uri⟩ (.replacingUri c.name old uri)
  /-- A failure is translated that is neither an invocation error nor attached to one, and that has
  no class, or a class without a URI. -/
  | translated {s : Store} {failure : Thrown} {fresh : Nat} {c? : Option FailureClass}
      {kind : String} {args : List Value} (hfree : s.attached? failure = none)
      (hpresents : failure.Presents c? kind args) (hmiss : ∀ c, c? = some c → uri? c = none) :
      Notes r Registered uri? ⟨s, .toInvocation failure fresh⟩
        (.noUri kind r.config.runtimeErrorUri)
  /-- Such a failure is translated for a reply. -/
  | replied {s : Store} {failure : Thrown} {requestId : Number} {c? : Option FailureClass}
      {kind : String} {args : List Value} (hfree : s.attached? failure = none)
      (hpresents : failure.Presents c? kind args) (hmiss : ∀ c, c? = some c → uri? c = none) :
      Notes r Registered uri? ⟨s, .toReply failure requestId⟩
        (.noUri kind r.config.runtimeErrorUri)
  /-- An invocation error is to take over the fields of another. The texts are those of before. -/
  | overwritten (s : Store) (target err : InvocationId) :
      Notes r Registered uri? ⟨s, .setInvocation (.invocation target) err⟩
        (.overwriting (s.textOf target) (s.textOf err))
  /-- An object is attached that is attached already. -/
  | attached {s : Store} {o : Object} {old : InvocationId} (err : InvocationId)
      (hattached : s.attached? (.object o) = some old) :
      Notes r Registered uri? ⟨s, .setInvocation (.object o) err⟩
        (.replacingAttached (s.textOf old) o.body.kindName (s.textOf err))

/-- The general URI is looked up exactly for what has no class, or a class without a URI. -/
theorem uriFor_snd_eq_some_iff {r : Registry σ} {c? : Option FailureClass} {kind : String}
    {d : Diagnostic} : (r.uriFor c? kind).2 = some d ↔
      (∀ c, c? = some c → r.classUris.get? c = none) ∧
        d = .noUri kind r.config.runtimeErrorUri := by
  have hmiss : c?.bind r.classUris.get? = none ↔ ∀ c, c? = some c → r.classUris.get? c = none :=
    Option.bind_eq_none_iff
  rw [← hmiss, uriFor]
  cases c?.bind r.classUris.get? with
  | none => simp [eq_comm]
  | some uri => simp

/-- What a translation notes in the end. -/
def notedOf (result : Except Fault (Report × Option Diagnostic)) : Option Diagnostic :=
  result.toOption.bind (·.2)

/-- A failure is reported under the general URI, with a diagnostic, exactly if it is neither an
invocation error nor attached to one and has no class, or a class without a URI. -/
theorem Sound.notedOf_toInvocation_iff {r : Registry σ} (h : r.Sound) {s : Store}
    {failure : Thrown} {d : Diagnostic} : notedOf (r.toInvocation s failure) = some d ↔
      ∃ c? kind args, s.attached? failure = none ∧ failure.Presents c? kind args ∧
        (∀ c, c? = some c → r.classUris.get? c = none) ∧
        d = .noUri kind r.config.runtimeErrorUri := by
  rcases r.toInvocation_cases s failure with
    ⟨id, rfl, -⟩ | ⟨o, id, rfl, hattached, hreport⟩ | ⟨hfree, -, kind, hpresents, hreport⟩
  · exact ⟨nofun, nofun⟩
  · have hsilent : notedOf (r.toInvocation s (.object o)) = none := by
      rw [hreport]
      rfl
    simp [hsilent, hattached]
  · have hmade := InvocationError.ofArgs_eq_ok (h.isUri_reportedUri failure.class?)
      failure.positionalArgs
    have hnoted : notedOf (r.toInvocation s failure) = (r.uriFor failure.class? kind).2 := by
      rw [hreport, newReport_of_ofArgs hmade]
      rfl
    rw [hnoted, uriFor_snd_eq_some_iff]
    constructor
    · rintro ⟨hmiss, rfl⟩
      exact ⟨_, kind, _, hfree, hpresents, hmiss, rfl⟩
    · rintro ⟨c?, kind', args, -, hpresents', hmiss, rfl⟩
      obtain ⟨rfl, rfl⟩ := hpresents'.unique hpresents
      exact ⟨hmiss, rfl⟩

/-- A turn that reports a failure notes what the translation notes. -/
theorem diagnostic_reported (p : Peer σ) (fresh : Nat)
    (result : Except Fault (Report × Option Diagnostic)) :
    (p.reported fresh result).diagnostic = notedOf result := by
  fun_cases p.reported fresh result <;> rfl

/-- A turn that replies to an invocation notes what the translation notes. -/
theorem diagnostic_replied (p : Peer σ) (requestId : Number)
    (result : Except Fault (Report × Option Diagnostic)) :
    (p.replied requestId result).diagnostic = notedOf result := by
  fun_cases p.replied requestId result <;> rfl

/-- The registration of a factory is noted exactly if it succeeds and there is a factory already. -/
theorem diagnostic_registerResponse_iff {r : Registry σ} {s : Store} {uri : String}
    {factory? : Option (Factory σ)} {matching : MatchPolicy} {d : Diagnostic} :
    (r.outcome ⟨s, .registerResponse uri factory? matching⟩).diagnostic = some d ↔
      (r.outcome ⟨s, .registerResponse uri factory? matching⟩).answer = .ok .done ∧
        (r.factories.registered? uri matching).isSome ∧ d = .replacingFactory uri matching := by
  rcases r.outcome_registerResponse s uri factory? matching with ⟨_, hout⟩ | ⟨factory, -, hout⟩
  · simp [hout]
  · rw [hout]
    cases r.factories.registered? uri matching with
    | none => simp
    | some old => simp [eq_comm]

/-- The registration of the URI of a class is noted exactly if it succeeds and the class has a URI
already. -/
theorem diagnostic_registerUri_iff {r : Registry σ} {s : Store} {c : FailureClass} {uri : String}
    {d : Diagnostic} : (r.outcome ⟨s, .registerUri c uri⟩).diagnostic = some d ↔
      (r.outcome ⟨s, .registerUri c uri⟩).answer = .ok .done ∧
        ∃ old, r.classUris.get? c = some old ∧ d = .replacingUri c.name old uri := by
  rcases r.outcome_registerUri s c uri with ⟨_, hout⟩ | hout
  · simp [hout]
  · simp [hout, eq_comm]

/-- What a sound registry notes in a turn is what there is an occasion for, given the tables that it
has. -/
theorem Sound.diagnostic_eq_some_iff {r : Registry σ} (h : r.Sound) {t : Turn σ}
    {d : Diagnostic} : (r.outcome t).diagnostic = some d ↔
      Notes r (fun uri matching => (r.factories.registered? uri matching).isSome)
        r.classUris.get? t d := by
  obtain ⟨s, operation⟩ := t
  constructor
  · intro hd
    cases operation with
    | registerResponse uri factory? matching =>
      obtain ⟨hdone, hregistered, rfl⟩ := diagnostic_registerResponse_iff.mp hd
      exact .factory hdone hregistered
    | registerUri c uri =>
      obtain ⟨hdone, old, hold, rfl⟩ := diagnostic_registerUri_iff.mp hd
      exact .uri hdone hold
    | close | clearAttached => cases hd
    | factoryFor | uriOf | toFailure =>
      rw [outcome, Peer.step] at hd
      split at hd <;> cases hd
    | toInvocation failure fresh =>
      rw [outcome, Peer.step, diagnostic_reported, h.notedOf_toInvocation_iff] at hd
      obtain ⟨c?, kind, args, hfree, hpresents, hmiss, rfl⟩ := hd
      exact .translated hfree hpresents hmiss
    | toReply failure requestId =>
      rw [outcome, Peer.step, diagnostic_replied, h.notedOf_toInvocation_iff] at hd
      obtain ⟨c?, kind, args, hfree, hpresents, hmiss, rfl⟩ := hd
      exact .replied hfree hpresents hmiss
    | setInvocation failure err =>
      cases failure with
      | primitive p => cases hd
      | invocation target =>
        cases hd
        exact .overwritten s target err
      | object o =>
        obtain ⟨old, hold, rfl⟩ := Option.map_eq_some_iff.mp hd
        exact .attached err hold
  · intro hnotes
    cases hnotes with
    | factory hdone hregistered =>
      exact diagnostic_registerResponse_iff.mpr ⟨hdone, hregistered, rfl⟩
    | uri hdone hold => exact diagnostic_registerUri_iff.mpr ⟨hdone, _, hold, rfl⟩
    | translated hfree hpresents hmiss =>
      rw [outcome, Peer.step, diagnostic_reported, h.notedOf_toInvocation_iff]
      exact ⟨_, _, _, hfree, hpresents, hmiss, rfl⟩
    | replied hfree hpresents hmiss =>
      rw [outcome, Peer.step, diagnostic_replied, h.notedOf_toInvocation_iff]
      exact ⟨_, _, _, hfree, hpresents, hmiss, rfl⟩
    | overwritten => rfl
    | attached err hattached => exact Option.map_eq_some_iff.mpr ⟨_, hattached, rfl⟩

/-! ## Counting -/

/-- One of the tables of a registry, as far as its keys go. -/
structure Ledger (σ κ : Type) where
  /-- The key that a turn registers something under, if it succeeds. -/
  given? : Registry σ → Turn σ → Option κ
  /-- Whether something is registered under a key. -/
  holds : Registry σ → κ → Bool
  /-- The number of keys. -/
  size : Registry σ → Nat
  /-- Whether a diagnostic tells that something takes the place of something else. -/
  replaces : Diagnostic → Bool

namespace Ledger

variable {κ : Type} (L : Ledger σ κ)

/-- The keys of the registrations that succeed, in the order of the turns. -/
def keys (r : Registry σ) (turns : List (Turn σ)) : List κ :=
  (r.trace turns).filterMap fun (r, t) => L.given? r t

/-- What a turn does to a table: nothing, or it registers something under a key, and notes a
replacement exactly when the key is there already. -/
inductive Entered (r : Registry σ) (t : Turn σ) : Prop
  | unchanged (hgiven : L.given? r t = none) (hholds : ∀ k, L.holds (r.turn t) k = L.holds r k)
      (hsize : L.size (r.turn t) = L.size r)
      (hsilent : (r.outcome t).diagnostic.toList.countP L.replaces = 0)
  | entered {key : κ} (hgiven : L.given? r t = some key)
      (hholds : ∀ k, L.holds (r.turn t) k = true ↔ k = key ∨ L.holds r k = true)
      (hsize : L.size (r.turn t) = L.size r + if L.holds r key then 0 else 1)
      (hnoted : (r.outcome t).diagnostic.toList.countP L.replaces =
        if L.holds r key then 1 else 0)

/-- What the keys of the registrations, the table and the log of a history have to do with each
other. -/
structure Counted [DecidableEq κ] (r : Registry σ) (turns : List (Turn σ)) : Prop where
  holds_iff : ∀ k, L.holds (r.after turns) k = true ↔ k ∈ L.keys r turns
  card : (L.keys r turns).toFinset.card = L.size (r.after turns)
  length : (L.keys r turns).length =
    L.size (r.after turns) + (r.log turns).countP L.replaces

/-- A turn that leaves the registry as it is and notes nothing about a table leaves the table. -/
theorem Entered.of_silent {L : Ledger σ κ} {r : Registry σ} {t : Turn σ}
    (hgiven : L.given? r t = none) (hholds : ∀ k, L.holds (r.turn t) k = L.holds r k)
    (hsize : L.size (r.turn t) = L.size r)
    (hsilent : ∀ d, (r.outcome t).diagnostic = some d → L.replaces d = false) : L.Entered r t := by
  refine .unchanged hgiven hholds hsize (List.countP_eq_zero.mpr fun d hd => ?_)
  rw [hsilent d (Option.mem_toList.mp hd)]
  exact Bool.false_ne_true

/-- A turn that is refused leaves every table. -/
theorem Entered.of_refused {L : Ledger σ κ} {r : Registry σ} {t : Turn σ} {fault : Fault}
    (hgiven : L.given? r t = none) (hout : r.outcome t = ⟨⟨r, t.store⟩, .error fault, none⟩) :
    L.Entered r t := by
  have hturn : r.turn t = r := by rw [turn, hout]
  refine .of_silent hgiven (fun k => by rw [hturn]) (by rw [hturn]) fun d hd => ?_
  rw [hout] at hd
  cases hd

/-- The keys of a history with one more turn at its end. -/
theorem keys_concat (r : Registry σ) (turns : List (Turn σ)) (t : Turn σ) :
    L.keys r (turns ++ [t]) = L.keys r turns ++ (L.given? (r.after turns) t).toList :=
  filterMap_trace_concat L.given? r turns t

/-- Where nothing was registered before and every turn does one of these things, every registration
that succeeds adds a key or is noted. -/
theorem counted_after [DecidableEq κ] {r : Registry σ}
    (hentered : ∀ turns t, L.Entered (r.after turns) t) (hnone : ∀ k, L.holds r k = false)
    (hempty : L.size r = 0) (turns : List (Turn σ)) : L.Counted r turns := by
  induction turns using List.reverseRecOn with
  | nil =>
    have hkeys : L.keys r [] = [] := rfl
    exact ⟨fun k => by simp [hkeys, after, hnone], by simp [hkeys, after, hempty],
      by simp [hkeys, after, hempty, log, outcomes, trace]⟩
  | append_singleton turns t ih =>
    obtain ⟨hholds_iff, hcard, hlength⟩ := ih
    have hafter := r.after_concat turns t
    have hlog : r.log (turns ++ [t]) =
        r.log turns ++ ((r.after turns).outcome t).diagnostic.toList := by
      rw [log_append_cons]
      exact List.append_nil _
    cases hentered turns t with
    | unchanged hgiven hholds hsize hsilent =>
      have hkeys : L.keys r (turns ++ [t]) = L.keys r turns := by
        rw [keys_concat, hgiven, Option.toList_none, List.append_nil]
      refine ⟨fun k => ?_, ?_, ?_⟩
      · rw [hafter, hholds, hholds_iff, hkeys]
      · rw [hafter, hsize, hkeys, hcard]
      · rw [hafter, hsize, hkeys, hlog, List.countP_append, hsilent, hlength, Nat.add_zero]
    | @entered key hgiven hholds hsize hnoted =>
      have hkeys : L.keys r (turns ++ [t]) = L.keys r turns ++ [key] := by
        rw [keys_concat, hgiven, Option.toList_some]
      have hinsert : (L.keys r turns ++ [key]).toFinset = insert key (L.keys r turns).toFinset := by
        rw [List.toFinset_append, Finset.union_comm]
        rfl
      refine ⟨fun k => ?_, ?_, ?_⟩
      · rw [hafter, hholds, hholds_iff, hkeys, List.mem_append, List.mem_singleton, or_comm]
      · rw [hafter, hsize, hkeys, hinsert]
        by_cases hkey : L.holds (r.after turns) key = true
        · have hmem := List.mem_toFinset.mpr ((hholds_iff key).mp hkey)
          rw [if_pos hkey, Finset.insert_eq_of_mem hmem, hcard, Nat.add_zero]
        · have hfresh : key ∉ (L.keys r turns).toFinset := by
            rwa [List.mem_toFinset, ← hholds_iff]
          rw [if_neg hkey, Finset.card_insert_of_notMem hfresh, hcard]
      -- The key is counted by the table if it is new, and by the log otherwise.
      · rw [hafter, hsize, hkeys, hlog, List.countP_append, hnoted, List.length_append, hlength,
          List.length_singleton]
        split <;> omega

end Ledger

/-! ## The two tables -/

/-- The table of factories, whose keys are a URI and a match policy. -/
def factoryLedger : Ledger σ (String × MatchPolicy) where
  given? := pairGiven?
  holds r key := (r.factories.registered? key.1 key.2).isSome
  size r := r.factories.size
  replaces := Diagnostic.replacesFactory

/-- The table of the URIs of classes. -/
def uriLedger : Ledger σ FailureClass where
  given? := classGiven?
  holds r c := (r.classUris.get? c).isSome
  size r := r.classUris.length
  replaces := Diagnostic.replacesUri

/-- What is noted of the value that is replaced is counted once if there is one. -/
theorem countP_toList_map {α : Type _} {note : α → Diagnostic} {p : Diagnostic → Bool}
    (h : ∀ a, p (note a) = true) (replaced : Option α) :
    (replaced.map note).toList.countP p = if replaced.isSome then 1 else 0 := by
  cases replaced with
  | none => rfl
  | some a => simp [h a]

/-- A turn that registers no factory gives none to any URI. -/
theorem pairGiven?_eq_none {r : Registry σ} {t : Turn σ}
    (hop : ∀ uri factory? matching, t.operation ≠ .registerResponse uri factory? matching) :
    r.pairGiven? t = none := by
  obtain ⟨s, operation⟩ := t
  cases operation with
  | registerResponse => exact absurd rfl (hop _ _ _)
  | registerUri | close | factoryFor | uriOf | toFailure | toInvocation | toReply | setInvocation
  | clearAttached => rfl

/-- A turn that registers no factory leaves the table of factories. -/
theorem Turned.factories_eq {r r' : Registry σ} {t : Turn σ} (h : Turned r t r')
    (hop : ∀ uri factory? matching, t.operation ≠ .registerResponse uri factory? matching) :
    r'.factories = r.factories := by
  cases h with
  | same | closed | uri => rfl
  | factory ht => exact absurd ht (hop _ _ _)

/-- The registration of a factory enters the table of factories unless it is refused. -/
theorem factoryLedger_registerResponse (r : Registry σ) (s : Store) (uri : String)
    (factory? : Option (Factory σ)) (matching : MatchPolicy) :
    factoryLedger.Entered r ⟨s, .registerResponse uri factory? matching⟩ := by
  rcases r.outcome_registerResponse s uri factory? matching with ⟨_, hout⟩ | ⟨factory, -, hout⟩
  · refine .of_refused ?_ hout
    simp [factoryLedger, pairGiven?, hout]
  · have hfactories : (r.turn ⟨s, .registerResponse uri factory? matching⟩).factories =
        r.factories.insert uri factory matching := by rw [turn, hout]
    have hgiven : factoryLedger.given? r ⟨s, .registerResponse uri factory? matching⟩ =
        some (uri, matching) := by simp [factoryLedger, pairGiven?, hout]
    refine .entered hgiven (fun key => ?_) ?_ ?_
    · simp only [factoryLedger, hfactories]
      by_cases hkey : key = (uri, matching)
      · subst hkey
        simp [UriMap.registered?_insert_self]
      · have hne : ¬ (key.1 = uri ∧ key.2 = matching) := fun hparts =>
          hkey (Prod.ext hparts.1 hparts.2)
        simp [UriMap.registered?_insert_of_ne _ _ _ _ hne, hkey]
    · calc (r.turn ⟨s, .registerResponse uri factory? matching⟩).factories.size
          = (r.factories.insert uri factory matching).size := by rw [hfactories]
        _ = _ := r.factories.size_insert uri factory matching
    · rw [hout]
      exact countP_toList_map (fun _ => rfl) _

/-- Only the registration of a factory enters the table of factories. -/
theorem Sound.factoryLedger_entered {r : Registry σ} (h : r.Sound) (t : Turn σ) :
    factoryLedger.Entered r t := by
  by_cases hop : ∃ uri factory? matching, t.operation = .registerResponse uri factory? matching
  · obtain ⟨s, operation⟩ := t
    obtain ⟨uri, factory?, matching, rfl⟩ := hop
    exact r.factoryLedger_registerResponse s uri factory? matching
  · have hother : ∀ uri factory? matching,
        t.operation ≠ .registerResponse uri factory? matching :=
      fun uri factory? matching heq => hop ⟨uri, factory?, matching, heq⟩
    have hfactories := (r.turned t).factories_eq hother
    refine .of_silent (pairGiven?_eq_none hother) (fun k => ?_) ?_ fun d hd => ?_
    · simp only [factoryLedger, hfactories]
    · simp only [factoryLedger, hfactories]
    · cases h.diagnostic_eq_some_iff.mp hd with
      | factory => exact absurd rfl (hother _ _ _)
      | uri | translated | replied | overwritten | attached => rfl

/-- A turn that registers no URI gives none to any class. -/
theorem classGiven?_eq_none {r : Registry σ} {t : Turn σ}
    (hop : ∀ c uri, t.operation ≠ .registerUri c uri) : r.classGiven? t = none := by
  obtain ⟨s, operation⟩ := t
  cases operation with
  | registerUri => exact absurd rfl (hop _ _)
  | registerResponse | close | factoryFor | uriOf | toFailure | toInvocation | toReply
  | setInvocation | clearAttached => rfl

/-- A turn that registers no URI leaves the table of the URIs of classes. -/
theorem Turned.classUris_eq {r r' : Registry σ} {t : Turn σ} (h : Turned r t r')
    (hop : ∀ c uri, t.operation ≠ .registerUri c uri) : r'.classUris = r.classUris := by
  cases h with
  | same | closed | factory => rfl
  | uri hgiven =>
    obtain ⟨s, operation⟩ := t
    cases operation with
    | registerUri => exact absurd rfl (hop _ _)
    | registerResponse | close | factoryFor | uriOf | toFailure | toInvocation | toReply
    | setInvocation | clearAttached => cases hgiven

/-- The registration of the URI of a class enters the table of these unless it is refused. -/
theorem uriLedger_registerUri (r : Registry σ) (s : Store) (c : FailureClass) (uri : String) :
    uriLedger.Entered r ⟨s, .registerUri c uri⟩ := by
  rcases r.outcome_registerUri s c uri with ⟨_, hout⟩ | hout
  · refine .of_refused ?_ hout
    simp [uriLedger, classGiven?, hout]
  · have huris : (r.turn ⟨s, .registerUri c uri⟩).classUris = r.classUris.put c uri := by
      rw [turn, hout]
    have hgiven : uriLedger.given? r ⟨s, .registerUri c uri⟩ = some c := by
      simp [uriLedger, classGiven?, hout]
    refine .entered hgiven (fun c' => ?_) ?_ ?_
    · simp only [uriLedger, huris]
      by_cases hc : c' = c
      · subst hc
        simp
      · simp [Assoc.get?_put_of_ne (Ne.symm hc), hc]
    · calc (r.turn ⟨s, .registerUri c uri⟩).classUris.length
          = (r.classUris.put c uri).length := by rw [huris]
        _ = _ := Assoc.length_put c uri r.classUris
    · rw [hout]
      exact countP_toList_map (fun _ => rfl) _

/-- Only the registration of the URI of a class enters the table of these. -/
theorem Sound.uriLedger_entered {r : Registry σ} (h : r.Sound) (t : Turn σ) :
    uriLedger.Entered r t := by
  by_cases hop : ∃ c uri, t.operation = .registerUri c uri
  · obtain ⟨s, operation⟩ := t
    obtain ⟨c, uri, rfl⟩ := hop
    exact r.uriLedger_registerUri s c uri
  · have hother : ∀ c uri, t.operation ≠ .registerUri c uri := fun c uri heq => hop ⟨c, uri, heq⟩
    have huris := (r.turned t).classUris_eq hother
    refine .of_silent (classGiven?_eq_none hother) (fun k => ?_) ?_ fun d hd => ?_
    · simp only [uriLedger, huris]
    · simp only [uriLedger, huris]
    · cases h.diagnostic_eq_some_iff.mp hd with
      | uri => exact absurd rfl (hother _ _)
      | factory | translated | replied | overwritten | attached => rfl

/-- What the log of a history accounts for. -/
structure Accounts (r : Registry σ) (turns : List (Turn σ)) : Prop where
  /-- Each turn adds one diagnostic to the log or none, and one exactly on an occasion for it, where
  the tables hold what was registered in the turns before. -/
  noted : ∀ before t later, turns = before ++ t :: later → ∃ noted? : Option Diagnostic,
    r.log turns = r.log before ++ noted?.toList ++ ((r.after before).turn t).log later ∧
      ∀ d, noted? = some d ↔
        Notes (r.after before) (fun uri matching => (uri, matching) ∈ r.registeredPairs before)
          (fun c => r.lastUri? c before) t d
  /-- Each registration of a factory that succeeds is the first one for its URI and match policy, or
  is noted. -/
  factories : (r.registeredPairs turns).length =
    (r.registeredPairs turns).toFinset.card + (r.log turns).countP Diagnostic.replacesFactory
  /-- Each registration of a URI that succeeds is the first one for its class, or is noted. -/
  uris : (r.registeredClasses turns).length =
    (r.registeredClasses turns).toFinset.card + (r.log turns).countP Diagnostic.replacesUri
  /-- There is one entry for each of the URIs and match policies. -/
  size : (r.after turns).factories.size = (r.registeredPairs turns).toFinset.card
  /-- There is one URI for each of the classes. -/
  classUris : (r.after turns).classUris.length = (r.registeredClasses turns).toFinset.card

end Registry

end Wamp
