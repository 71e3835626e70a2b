import Wamp.Proofs.Message.Delivery
import Wamp.Proofs.Value.Json
import Wamp.Proofs.Word

/-!
# What the text of a message tells

The text of a message is the name of its kind and, behind a space, the JSON text of its wire form.
Nothing of the wire form is lost in it: messages of plain values have the same text exactly if they
have the same wire form, and then they are of one kind (`Message.text_eq_text_iff`). The wire form
of an error tells all of it, so errors with the same text are the same error.
-/

namespace Wamp

/-- The name of a kind is one word. -/
theorem MessageKind.space_notMem_name (kind : MessageKind) : ' ' ∉ kind.name.toList := by
  cases kind <;> decide

/-- The wire form of an error tells all of it. -/
theorem ErrorMessage.wire_injective : Function.Injective ErrorMessage.wire := by
  intro m n h
  obtain ⟨htype, hid, hdetails, herror, hpayload⟩ : m.requestType.toValue = n.requestType.toValue ∧
      m.requestId = n.requestId ∧ m.details = n.details ∧ m.error = n.error ∧
      payload (some m.args) (some m.kwargs) = payload (some n.args) (some n.kwargs) := by
    simpa [wire] using h
  obtain ⟨hargs, hkwargs⟩ := payload_eq_iff.mp hpayload
  cases m
  cases n
  cases Shape.toValue_inj htype
  cases hid
  cases hdetails
  cases herror
  cases hargs
  cases hkwargs
  rfl

namespace Message

/-- The values that a message is made of, where arguments that are not there count as empty. -/
def parts : Message → List Value
  | .abort m => [.dict m.details, .string m.reason]
  | .error m =>
    [.number m.requestId, .dict m.details, .string m.error, .list m.args, .dict m.kwargs]
  | .event m =>
    [.number m.subscriptionId, .number m.publicationId, .dict m.details,
      .list (m.args.toOption.getD []), .dict (m.kwargs.toOption.getD [])]
  | .interrupt m => [.number m.requestId, .dict m.options]

/-- A message of plain values. -/
def Plain (m : Message) : Prop := ∀ v ∈ m.parts, v.Plain

/-- The code of a kind is plain. -/
theorem plain_toValue (kind : MessageKind) : kind.toValue.Plain := by
  cases kind <;> exact .int (by decide)

/-- A payload of plain arguments is plain. -/
theorem plain_payload {args : Option (List Value)} {kwargs : Option Dict}
    (hargs : (Value.list (args.getD [])).Plain) (hkwargs : (Value.dict (kwargs.getD [])).Plain) :
    ∀ v ∈ payload args kwargs, v.Plain := by
  unfold payload
  dsimp only
  split
  · exact List.forall_mem_cons.mpr ⟨hargs, List.forall_mem_singleton.mpr hkwargs⟩
  split
  · exact List.forall_mem_singleton.mpr hargs
  · exact nofun

/-- The wire form of a message of plain values is plain. -/
theorem Plain.wire {m : Message} (h : m.Plain) : (Value.list m.wire).Plain := by
  refine .list ?_
  cases m with
  | abort m => exact List.forall_mem_cons.mpr ⟨plain_toValue .abort, h⟩
  | error m =>
    simp only [Plain, parts, List.forall_mem_cons] at h
    obtain ⟨hid, hdetails, herror, hargs, hkwargs, -⟩ := h
    have hpayload : ∀ v ∈ payload (some m.args) (some m.kwargs), v.Plain :=
      plain_payload hargs hkwargs
    simp only [Message.wire, ErrorMessage.wire, List.cons_append, List.nil_append,
      List.forall_mem_cons]
    exact ⟨plain_toValue .error, plain_toValue m.requestType, hid, hdetails, herror, hpayload⟩
  | event m =>
    simp only [Plain, parts, List.forall_mem_cons] at h
    obtain ⟨hsubscription, hpublication, hdetails, hargs, hkwargs, -⟩ := h
    have hpayload := plain_payload hargs hkwargs
    simp only [Message.wire, EventMessage.wire, List.cons_append, List.nil_append,
      List.forall_mem_cons]
    exact ⟨plain_toValue .event, hsubscription, hpublication, hdetails, hpayload⟩
  | interrupt m => exact List.forall_mem_cons.mpr ⟨plain_toValue .interrupt, h⟩

/-- The wire form of a message begins with the code of its kind. -/
theorem head?_wire (m : Message) : m.wire.head? = some m.kind.toValue := by
  cases m <;> rfl

/-- Messages with the same wire form are of one kind. -/
theorem kind_eq_of_wire_eq {m n : Message} (h : m.wire = n.wire) : m.kind = n.kind := by
  have hhead : some m.kind.toValue = some n.kind.toValue := by
    rw [← head?_wire, h, head?_wire]
  exact Shape.toValue_inj (Option.some.inj hhead)

/-- What follows the name of the kind in the text of a message is the JSON text of its wire
form. -/
theorem afterFirstWord_text (m : Message) :
    afterFirstWord m.text = (Value.list m.wire).json := by
  rw [text, afterFirstWord_append_space m.kind.space_notMem_name, Value.quoted,
    if_pos (by rfl), String.toList_ofList]

/-- Messages of plain values have the same text exactly if they have the same wire form. Then they
are of one kind, and if they are errors, they are the same error. -/
theorem text_eq_text_iff {m n : Message} (hm : m.Plain) (hn : n.Plain) :
    (m.text = n.text ↔ m.wire = n.wire) ∧
      (m.text = n.text → m.kind = n.kind ∧ ∀ e f, m = .error e → n = .error f → e = f) := by
  have hwire : m.text = n.text → m.wire = n.wire := by
    intro h
    have hjson : (Value.list m.wire).json = (Value.list n.wire).json := by
      rw [← afterFirstWord_text, h, afterFirstWord_text]
    exact Value.list.inj (hm.wire.eq_of_json_eq hn.wire hjson)
  refine ⟨⟨hwire, fun h => ?_⟩, fun h => ⟨kind_eq_of_wire_eq (hwire h), ?_⟩⟩
  · rw [text, text, kind_eq_of_wire_eq h, h]
  · rintro e f rfl rfl
    exact ErrorMessage.wire_injective (hwire h)

/-- Events whose arguments are empty or not there have the same text; a string that reads like an
empty list is a positional argument and shows. -/
theorem text_eq_text_iff_empty :
    let m : Message := .event ⟨.int 1, .int 2, [("k", .list [.null])], .given [], .undefined⟩
    let n : Message := .event ⟨.int 1, .int 2, [("k", .list [.null])], .absent, .given []⟩
    let o : Message :=
      .event ⟨.int 1, .int 2, [("k", .list [.null])], .given [.string "[]"], .absent⟩
    m.Plain ∧ n.Plain ∧ o.Plain ∧ m.text = n.text ∧ m.text ≠ o.text := by
  intro m n o
  have hplain (args : Field (List Value)) (kwargs : Field Dict)
      (hargs : (Value.list (args.toOption.getD [])).Plain)
      (hkwargs : (Value.dict (kwargs.toOption.getD [])).Plain) :
      Plain (.event ⟨.int 1, .int 2, [("k", .list [.null])], args, kwargs⟩) := by
    have hids : (Value.number (.int 1)).Plain ∧ (Value.number (.int 2)).Plain :=
      ⟨.int (by decide), .int (by decide)⟩
    have hdetails : (Value.dict [("k", .list [.null])]).Plain := by simp [Value.Plain.null]
    simp only [Plain, parts, List.forall_mem_cons]
    exact ⟨hids.1, hids.2, hdetails, hargs, hkwargs, nofun⟩
  have hm : m.Plain := hplain (.given []) .undefined (.list nofun) (.dict nofun)
  have hn : n.Plain := hplain .absent (.given []) (.list nofun) (.dict nofun)
  have ho : o.Plain := hplain (.given [.string "[]"]) .absent
    (.list (List.forall_mem_singleton.mpr (.string "[]"))) (.dict nofun)
  refine ⟨hm, hn, ho, (text_eq_text_iff hm hn).1.mpr rfl, fun h => ?_⟩
  cases (text_eq_text_iff hm ho).1.mp h

end Message

end Wamp
