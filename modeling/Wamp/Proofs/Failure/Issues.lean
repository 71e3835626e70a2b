import Wamp.Proofs.Failure.Payload

/-!
# The issues of a payload

A payload is read part by part, and the issues of the parts are put together on the way out.
`Payload.issues` lists the same issues without reading anything: by going over the four keys in
their order and, inside a part, over the items or entries that may not travel.
`Schema.payload_issues` says that a payload is refused with exactly this list, and accepted exactly
if the list is empty. `Checked.Reports` carries the comparison through the ways in which results are
put together, one lemma for each.
-/

namespace Wamp

/-! ## Results and their issues -/

/-- A result and the issues that it reports: a result that is there has none, and one that is not
there has at least one. -/
inductive Checked.Reports {α : Type _} : Checked α → List Issue → Prop
  | accepted (a : α) : Reports (.ok a) []
  | refused {issues : List Issue} (h : issues ≠ []) : Reports (.error issues) issues

/-- It makes no difference whether a result is changed before or after it is seen from the whole. -/
theorem Checked.below_map {α β : Type _} (step : PathStep) (x : Checked α) (f : α → β) :
    Checked.below step (x.map f) = (x.below step).map f := by
  cases x with
  | ok a => rfl
  | error issues => rfl

namespace Checked.Reports

variable {α β : Type _} {x : Checked α} {y : Checked β} {issues issues' : List Issue}

/-- A refusal reports its issue. -/
theorem refuse (defect : Defect) : (Checked.refuse defect : Checked α).Reports [⟨[], defect⟩] :=
  .refused (List.cons_ne_nil _ _)

/-- A result is changed without its issues. -/
theorem map (h : x.Reports issues) (f : α → β) : Checked.Reports (x.map f) issues := by
  cases h with
  | accepted a => exact .accepted (f a)
  | refused h => exact .refused h

/-- The result of reading a part reports the issues of the part, seen from the whole. -/
theorem below (h : x.Reports issues) (step : PathStep) :
    (x.below step).Reports (issues.map (·.below step)) := by
  cases h with
  | accepted a => exact .accepted a
  | refused h => exact .refused (mt List.map_eq_nil_iff.mp h)

/-- Two results together report the issues of the first and then those of the second. -/
theorem and (hx : x.Reports issues) (hy : y.Reports issues') :
    (x.and y).Reports (issues ++ issues') := by
  cases hx with
  | accepted a =>
    cases hy with
    | accepted b => exact .accepted (a, b)
    | refused h => exact .refused h
  | refused h =>
    cases hy with
    | accepted b => exact (List.append_nil issues).symm ▸ .refused h
    | refused h' => exact .refused (List.append_ne_nil_of_left_ne_nil h _)

/-- A result is there exactly if it has no issues. -/
theorem exists_eq_ok_iff (h : x.Reports issues) : (∃ a, x = .ok a) ↔ issues = [] := by
  cases h with
  | accepted a => exact ⟨fun _ => rfl, fun _ => ⟨a, rfl⟩⟩
  | refused h => exact ⟨nofun, fun hnil => absurd hnil h⟩

/-- A result is not there exactly if it has issues, and fails with these. -/
theorem eq_error_iff (h : x.Reports issues) :
    x = .error issues' ↔ issues' = issues ∧ issues ≠ [] := by
  cases h with
  | accepted a => exact ⟨nofun, fun h => absurd rfl h.2⟩
  | refused h => exact ⟨fun heq => ⟨(Except.error.inj heq).symm, h⟩, fun heq => heq.1 ▸ rfl⟩

end Checked.Reports

/-- Whether a value may travel can be decided by reading it. -/
instance Value.decidableIsWire (v : Value) : Decidable v.IsWire :=
  decidable_of_iff (v.wire?.isSome = true) <| by
    rw [Option.isSome_iff_exists]
    exact ⟨fun ⟨_, hw⟩ => (wire?_eq_some_iff.mp hw).1, fun h => ⟨_, wire?_eq_some_iff.mpr ⟨h, rfl⟩⟩⟩

/-- The entries of a dictionary, unless it stands for a result that is still to come. -/
def Value.entries? : Value → Option Dict
  | .dict d => if Dict.isPromise d then none else some d
  | _ => none

/-! ## The issues of a payload, told from the value -/

namespace Payload

/-- The issues of a value that is to be a list: that it is none, or that items may not travel. -/
def listIssues (key : String) : Value → List Issue
  | .list items =>
    (items.zipIdx.filter fun (v, _) => ¬ v.IsWire).map fun (_, i) =>
      ⟨[.key key, .index i], .noAlternative⟩
  | v => [⟨[.key key], .wrongType .array v.typeName⟩]

/-- The issues of a value that is to be a dictionary: that it is none, or that values under some of
its keys may not travel. -/
def dictIssues (key : String) (v : Value) : List Issue :=
  match v.entries? with
  | some d =>
    (d.filter fun (_, v) => ¬ v.IsWire).map fun (k, _) => ⟨[.key key, .key k], .noAlternative⟩
  | none => [⟨[.key key], .wrongType .object v.typeName⟩]

/-- The issues of a part of a payload, which may be left out or left without a value. -/
def partIssues (issues : String → Value → List Issue) (d : Dict) (key : String) : List Issue :=
  match d.get? key with
  | none => []
  | some .undefined => []
  | some v => issues key v

/-- The issue of a payload whose URI is none. -/
def uriIssues (d : Dict) : List Issue :=
  match d.get? "uri" with
  | some (.string s) => if Uri.isUri .default s then [] else [⟨[.key "uri"], .invalidUri⟩]
  | _ => [⟨[.key "uri"], .invalidUri⟩]

/-- The issue of a payload with other keys than it may have. -/
def keyIssues (d : Dict) : List Issue :=
  let unknown := d.keys.filter (· ∉ keys)
  if unknown = [] then [] else [⟨[], .unknownKeys unknown⟩]

/-- The issues of a value that is to be a payload: that it is no dictionary, or those of its URI, of
its parts in their order, and of its keys. -/
def issues (v : Value) : List Issue :=
  match v.entries? with
  | some d =>
    uriIssues d ++ partIssues listIssues d "args" ++ partIssues dictIssues d "kwargs"
      ++ partIssues dictIssues d "details" ++ keyIssues d
  | none => [⟨[], .wrongType .object v.typeName⟩]

end Payload

/-! ## What the schemas report -/

namespace Schema

/-- A value that may not travel is one issue, whatever is in it. -/
theorem reports_value (v : Value) :
    (value v).Reports (if v.IsWire then [] else [⟨[], .noAlternative⟩]) := by
  unfold value
  split
  · next w hw =>
    rw [if_pos (Value.wire?_eq_some_iff.mp hw).1]
    exact .accepted w
  · next hnone =>
    have hwire : ¬ v.IsWire := fun h => by
      rw [Value.wire?_eq_some_iff.mpr ⟨h, rfl⟩] at hnone
      cases hnone
    rw [if_neg hwire]
    exact .refuse .noAlternative

/-- The elements of a list from a position on report those that may not travel. -/
theorem reports_elements (position : Nat) (items : List Value) :
    (elements position items).Reports
      (((items.zipIdx position).filter fun (v, _) => ¬ v.IsWire).map fun (_, i) =>
        ⟨[.index i], .noAlternative⟩) := by
  induction items generalizing position with
  | nil => exact .accepted []
  | cons v rest ih =>
    have h := ((reports_value v).below (.index position)).and (ih (position + 1))
    rw [elements, List.zipIdx_cons]
    by_cases hv : v.IsWire
    · simpa [hv] using h.map _
    · simpa [hv, Issue.below] using h.map _

/-- The entries of a dictionary report the keys of the values that may not travel. -/
theorem reports_entries (d : Dict) :
    (entries d).Reports
      ((d.filter fun (_, v) => ¬ v.IsWire).map fun (k, _) => ⟨[.key k], .noAlternative⟩) := by
  induction d with
  | nil => exact .accepted []
  | cons head rest ih =>
    obtain ⟨key, v⟩ := head
    have h := ((reports_value v).below (.key key)).and ih
    rw [entries]
    by_cases hv : v.IsWire
    · simpa [hv] using h.map _
    · simpa [hv, Issue.below] using h.map _

/-- A value read by its entries reports what these do, or that it is no dictionary. -/
theorem reports_object {α : Type _} {read : Dict → Checked α} {issues : Dict → List Issue}
    (h : ∀ d, (read d).Reports (issues d)) (v : Value) :
    (object read v).Reports
      (match v.entries? with
      | some d => issues d
      | none => [⟨[], .wrongType .object v.typeName⟩]) := by
  cases v with
  | primitive p => exact .refuse _
  | function => exact .refuse _
  | list items => exact .refuse _
  | dict d =>
    cases hd : Dict.isPromise d with
    | false => simpa [object, Value.entries?, hd] using h d
    | true => simpa [object, Value.entries?, Value.typeName, hd] using .refuse _

/-- A value under a key that is to be a list reports what is listed. -/
theorem reports_list (key : String) (v : Value) :
    ((list v).below (.key key)).Reports (Payload.listIssues key v) := by
  cases v with
  | list items =>
    have h := (reports_elements 0 items).below (.key key)
    rw [List.map_map] at h
    exact h
  | primitive p => exact (Checked.Reports.refuse _).below (.key key)
  | function => exact (Checked.Reports.refuse _).below (.key key)
  | dict d => exact (Checked.Reports.refuse _).below (.key key)

/-- A value under a key that is to be a dictionary reports what is listed. -/
theorem reports_dict (key : String) (v : Value) :
    ((dict v).below (.key key)).Reports (Payload.dictIssues key v) := by
  have h := (reports_object reports_entries v).below (.key key)
  unfold Payload.dictIssues
  split
  · next d hd =>
    rw [hd, List.map_map] at h
    exact h
  · next hd =>
    rw [hd] at h
    exact h

/-- A part of a payload reports nothing if it is left out or has no value. -/
theorem reports_part {α : Type} {schema : Value → Checked α} {issues : String → Value → List Issue}
    (h : ∀ key v, ((schema v).below (.key key)).Reports (issues key v)) (d : Dict) (key : String) :
    (part schema d key).Reports (Payload.partIssues issues d key) := by
  unfold part Payload.partIssues
  cases d.get? key with
  | none => exact .accepted Field.absent
  | some v =>
    by_cases hgiven : v = .undefined
    · subst hgiven
      exact .accepted Field.undefined
    · simpa [optional, hgiven, Checked.below_map] using (h key v).map Field.given

/-- The URI of a payload is reported unless it is one under the default policy. -/
theorem reports_uri (d : Dict) :
    ((uri ((d.get? "uri").getD .undefined)).below (.key "uri")).Reports (Payload.uriIssues d) := by
  unfold Payload.uriIssues
  split
  · next s hs =>
    rw [hs, Option.getD_some, uri]
    split
    · exact .accepted s
    · exact (Checked.Reports.refuse _).below (.key "uri")
  · next hstring =>
    have hrefused : uri ((d.get? "uri").getD .undefined) = .refuse .invalidUri := by
      rw [uri.eq_def]
      split
      · next s hs => exact absurd (get?_of_getD hs) (hstring s)
      · rfl
    rw [hrefused]
    exact (Checked.Reports.refuse _).below (.key "uri")

/-- The keys that a payload may not have are reported together. -/
theorem reports_onlyKeys (d : Dict) :
    (onlyKeys Payload.keys d).Reports (Payload.keyIssues d) := by
  unfold onlyKeys Payload.keyIssues
  split
  · next hnone =>
    rw [if_pos hnone]
    exact .accepted ()
  · next unknown hunknown =>
    rw [if_neg hunknown]
    exact .refuse _

/-- The entries of a payload report the issues of all its parts. -/
theorem reports_payloadEntries (d : Dict) :
    (payloadEntries d).Reports
      (Payload.uriIssues d ++ Payload.partIssues Payload.listIssues d "args"
        ++ Payload.partIssues Payload.dictIssues d "kwargs"
        ++ Payload.partIssues Payload.dictIssues d "details" ++ Payload.keyIssues d) := by
  have hargs := reports_part reports_list d "args"
  have hkwargs := reports_part reports_dict d "kwargs"
  have hdetails := reports_part reports_dict d "details"
  have h := ((reports_uri d).and (hargs.and (hkwargs.and hdetails))).and (reports_onlyKeys d)
  simp only [← List.append_assoc] at h
  exact h.map _

/-- A value that is to be a payload reports its issues. -/
theorem reports_payload (v : Value) : (payload v).Reports (Payload.issues v) :=
  reports_object reports_payloadEntries v

/-- An invocation error is made from every payload that is accepted. -/
theorem exists_ofPayload {v : Value} {p : Payload} (h : payload v = .ok p) :
    ∃ e, InvocationError.ofPayload v = .ok e := by
  obtain ⟨d, rfl, -, hentries⟩ := object_eq_ok_iff.mp h
  -- The URI is checked again when the error is made, under the policy that accepted it here.
  have huri := (uri_eq_ok_iff.mp (payloadEntries_eq_ok_iff.mp hentries).1).2
  rw [InvocationError.ofPayload, h]
  exact ⟨_, map_eq_ok_iff.mpr ⟨p.uri, Uri.validate_eq_ok_iff.mpr ⟨huri, rfl⟩, rfl⟩⟩

/-- An invocation error is made from a value without issues, and the attempt to make one from any
other value fails with its issues. -/
theorem ofPayload_cases (v : Value) :
    ((∃ e, InvocationError.ofPayload v = .ok e) ∧ Payload.issues v = []) ∨
      (InvocationError.ofPayload v = .error (.malformed (Payload.issues v)) ∧
        Payload.issues v ≠ []) := by
  have h := reports_payload v
  cases hp : payload v with
  | ok p => exact .inl ⟨exists_ofPayload hp, h.exists_eq_ok_iff.mp ⟨p, hp⟩⟩
  | error issues =>
    obtain ⟨rfl, hne⟩ := h.eq_error_iff.mp hp
    exact .inr ⟨by rw [InvocationError.ofPayload, hp], hne⟩

/-- A value is accepted as a payload exactly if it has no issues, and is refused with exactly its
issues otherwise. An invocation error is made from it exactly if it is accepted, and the fault of an
attempt that fails has the same issues. -/
theorem payload_issues (v : Value) :
    ((∃ p, payload v = .ok p) ↔ Payload.issues v = []) ∧
    (∀ issues, payload v = .error issues ↔ issues = Payload.issues v ∧ Payload.issues v ≠ []) ∧
    ((∃ e, InvocationError.ofPayload v = .ok e) ↔ Payload.issues v = []) ∧
    ∀ fault, InvocationError.ofPayload v = .error fault ↔
      fault = .malformed (Payload.issues v) ∧ Payload.issues v ≠ [] := by
  have h := reports_payload v
  refine ⟨h.exists_eq_ok_iff, fun issues => h.eq_error_iff, ?made⟩
  case made =>
    rcases ofPayload_cases v with ⟨⟨e, he⟩, hnil⟩ | ⟨he, hne⟩
    · simp [he, hnil]
    · simp [he, hne, eq_comm]

/-- No defect of a payload hides another; of what may not travel only the outermost counts. -/
example :
    (Payload.issues (.dict [("more", .null), ("kwargs", .string "k"),
      ("details", .dict [("a", .list [.null, .undefined]), ("b", .null), ("c", .function)]),
      ("args", .list [.undefined, .null, .list [.function]])])).map
        (fun issue => (issue.path, issue.defect.code, issue.defect.message)) =
      [([.key "uri"], "custom", "Invalid URI"),
        ([.key "args", .index 0], "invalid_union", "Invalid input"),
        ([.key "args", .index 2], "invalid_union", "Invalid input"),
        ([.key "kwargs"], "invalid_type", "Expected object, received string"),
        ([.key "details", .key "a"], "invalid_union", "Invalid input"),
        ([.key "details", .key "c"], "invalid_union", "Invalid input"),
        ([], "unrecognized_keys", "Unrecognized key(s) in object: 'more'")] := by
  decide

/-- A dictionary with functions to call with a result and with a failure is refused as a promise,
and its other keys are not looked at. -/
theorem payload_promise :
    let v : Value := .dict [("uri", .string "a.b"), ("then", .function), ("catch", .function)]
    payload v = .error [⟨[], .wrongType .object .promise⟩] ∧
      payload v ≠ .error [⟨[], .unknownKeys ["then", "catch"]⟩] := by
  intro v
  have hv : payload v = .error [⟨[], .wrongType .object .promise⟩] := rfl
  refine ⟨hv, ?_⟩
  rw [hv]
  simp

end Schema

end Wamp
