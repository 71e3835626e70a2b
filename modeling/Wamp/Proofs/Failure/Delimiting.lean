import Wamp.Proofs.Failure.Reachable
import Wamp.Proofs.Message.Canonical
import Wamp.Proofs.Value.Json
import Wamp.Proofs.Word

/-!
# Where the URI ends in a text

The texts of remote errors and of invocation errors begin with a URI, and what else they say is put
behind a space. No URI holds a space, so the URI can be cut off again. A remote error leaves a
section out when its text is empty, which is the same as leaving it out when there is nothing in it:
no JSON text is empty, and none begins like the parenthesis around keyword arguments.
`failure_texts_delimited` says what can be told from a text in this way.
-/

namespace Wamp

/-! ## Sections of the text of a remote error -/

/-- The text of positional arguments is not empty if there are any, and does not begin with a
parenthesis. -/
theorem exists_commaSeparated_quoted_eq_cons {items : List Value}
    (h : ∀ v ∈ items, v.hasJson = true) (hne : items ≠ []) :
    ∃ c rest, (commaSeparated (items.map Value.quoted)).toList = c :: rest ∧ c ≠ '(' := by
  obtain ⟨v, vs, rfl⟩ := List.exists_cons_of_ne_nil hne
  obtain ⟨c, rest, hv, hc⟩ := v.exists_json_eq_cons
  rw [Value.toList_commaSeparated_quoted h, List.map_cons, Json.intercalate_cons, hv]
  refine ⟨c, _, rfl, ?_⟩
  rintro rfl
  cases hc

/-- The text of keyword arguments is not empty if there are any. -/
theorem Dict.assignments_ne_empty {d : Dict} (h : d ≠ []) : d.assignments ≠ "" := by
  obtain ⟨⟨key, v⟩, rest, rfl⟩ := List.exists_cons_of_ne_nil h
  intro hempty
  have hchars := congrArg String.toList hempty
  rw [Dict.assignments, List.map_cons, toList_commaSeparated_cons] at hchars
  simp [assignment] at hchars

/-- The end of a text behind which a parenthesis is put. -/
theorem getLast?_append_parenthesis (text : String) :
    (text ++ ")").toList.getLast? = some ')' := by
  rw [String.toList_append]
  exact List.getLast?_concat

/-! ## What can be told from a text -/

/-- What can be told from the text of a remote error. -/
structure ErrorMessage.DelimitedIn (m : ErrorMessage) (text : String) : Prop where
  /-- The URI stands in front of the first space. -/
  uri : firstWord text = m.error
  /-- There is a space exactly if there are arguments. -/
  space : ' ' ∈ text.toList ↔ m.args ≠ [] ∨ m.kwargs ≠ []
  /-- A parenthesis opens behind the first space exactly if there are no positional arguments. -/
  opening : ' ' ∈ text.toList → ((afterFirstWord text).head? = some '(' ↔ m.args = [])
  /-- A parenthesis closes at the end if there are keyword arguments. -/
  closing : m.kwargs ≠ [] → text.toList.getLast? = some ')'

/-- What can be told from the message of an invocation error. -/
structure InvocationError.Delimited (e : InvocationError) : Prop where
  /-- The URI stands in front of the first space. -/
  uri : firstWord e.message = e.uri
  /-- There is a space exactly if there are positional arguments. -/
  space : ' ' ∈ e.message.toList ↔ e.args.isSome = true

namespace ErrorMessage

variable {m : ErrorMessage} {rest : String}

/-- A URI alone is the text of an error without arguments. -/
theorem DelimitedIn.bare (hspace : ' ' ∉ m.error.toList) (hargs : m.args = [])
    (hkwargs : m.kwargs = []) : m.DelimitedIn m.error where
  uri := firstWord_eq_self hspace
  space := by simp [hspace, hargs, hkwargs]
  opening h := absurd h hspace
  closing h := absurd hkwargs h

/-- A URI with more behind it is the text of an error with arguments. -/
theorem DelimitedIn.more (hspace : ' ' ∉ m.error.toList) (hany : m.args ≠ [] ∨ m.kwargs ≠ [])
    (hopening : rest.toList.head? = some '(' ↔ m.args = [])
    (hclosing : m.kwargs ≠ [] → rest.toList.getLast? = some ')') :
    m.DelimitedIn (m.error ++ " " ++ rest) where
  uri := firstWord_append_space hspace rest
  space := by simp [hany]
  opening _ := by rw [afterFirstWord_append_space hspace, hopening]
  closing h := by
    rw [String.toList_append, List.getLast?_append, hclosing h]
    rfl

/-- The text of a remote error is delimited if its positional arguments have JSON texts. -/
theorem delimitedIn_responseMessage (huri : Uri.isUri .default m.error = true)
    (hjson : ∀ v ∈ m.args, v.hasJson = true) :
    m.DelimitedIn (FailureContent.responseMessage m) := by
  have hspace := Uri.space_notMem_of_isUri huri
  unfold FailureContent.responseMessage
  dsimp only
  by_cases hargs : m.args = []
  · have hnone : commaSeparated (m.args.map Value.quoted) = "" := by
      rw [hargs]
      rfl
    rw [hnone, if_pos rfl, String.append_empty]
    by_cases hkwargs : m.kwargs = []
    · have hnone : m.kwargs.assignments = "" := by
        rw [hkwargs]
        rfl
      rw [hnone, if_pos rfl, String.append_empty]
      exact .bare hspace hargs hkwargs
    · have htext : m.error ++ (" (" ++ m.kwargs.assignments ++ ")") =
          m.error ++ " " ++ ("(" ++ m.kwargs.assignments ++ ")") := by
        rw [show " (" = " " ++ "(" from rfl]
        simp only [String.append_assoc]
      rw [if_neg (Dict.assignments_ne_empty hkwargs), htext]
      exact .more hspace (.inr hkwargs) (by simp [hargs]) fun _ => getLast?_append_parenthesis _
  · obtain ⟨c, rest, hchars, hc⟩ := exists_commaSeparated_quoted_eq_cons hjson hargs
    have hsome : commaSeparated (m.args.map Value.quoted) ≠ "" := by
      intro hempty
      rw [hempty] at hchars
      cases hchars
    have htext (args tail : String) :
        m.error ++ (" " ++ args) ++ tail = m.error ++ " " ++ (args ++ tail) := by
      simp only [String.append_assoc]
    rw [if_neg hsome, htext]
    refine .more hspace (.inl hargs) ?_ fun hkwargs => ?_
    · simp [hchars, hc, hargs]
    · rw [if_neg (Dict.assignments_ne_empty hkwargs), ← String.append_assoc]
      exact getLast?_append_parenthesis _

end ErrorMessage

/-- The message of a normal invocation error is delimited. -/
theorem InvocationError.Normal.delimited {e : InvocationError} (h : e.Normal) : e.Delimited := by
  have hspace := Uri.space_notMem_of_isUri h.uri
  have hmessage := h.rendered
  unfold Rendered render at hmessage
  split at hmessage
  · next hnone =>
    refine ⟨?_, ?_⟩
    · rw [hmessage, firstWord_eq_self hspace]
    · simp [hmessage, hspace, hnone]
  · next args hsome =>
    refine ⟨?_, ?_⟩
    · rw [hmessage, firstWord_append_space hspace]
    · simp [hmessage, hsome]

/-- Whatever error message is read, and whatever a program does with invocation errors, the text of
the remote error and the messages of the invocation errors are delimited by the URIs that they begin
with. -/
theorem failure_texts_delimited :
    (∀ (v : Value) (m : ErrorMessage) (f : Failure), Message.parse v = .ok (.error m) →
      f.content = .response m → m.DelimitedIn f.text) ∧
    ∀ (s : Store) (id : InvocationId) (e : InvocationError), s.Reachable →
      s.invocation? id = some e → e.Delimited := by
  refine ⟨fun v m f hparse hf => ?response, fun s id e hs he => ?invocation⟩
  case response =>
    obtain ⟨items, rfl, hgrammar⟩ :=
      Message.message_eq_ok_iff_grammar.mp (Message.parse_eq_ok_iff.mp hparse)
    obtain ⟨-, -, huri, hargs, -⟩ : m.Valid := hgrammar.valid
    have htext : f.text = FailureContent.responseMessage m := by
      obtain ⟨content, derived, cause, args⟩ := f
      obtain rfl : content = .response m := hf
      rfl
    rw [htext]
    exact ErrorMessage.delimitedIn_responseMessage huri fun v hv =>
      (Value.isWire_list_iff.mp hargs.1 v hv).hasJson
  case invocation => exact (hs.wellFormed.normal id e he).delimited

/-- A parenthesis in a keyword argument is not taken for the section, and an empty argument leaves a
space at the end of a message. -/
theorem failure_texts_delimited_blank :
    let m : ErrorMessage :=
      ⟨.invocation, .int 5, [], "com.example.bad", [], [("k", .string "(a b")]⟩
    let f : Failure := ⟨.response m, none, none, none⟩
    let e : InvocationError :=
      ⟨none, "com.example.bad", some [.string ""], none, none, "com.example.bad ", none⟩
    f.text = "com.example.bad (k=\"(a b\")" ∧ m.DelimitedIn f.text ∧ e.Delimited := by
  intro m f e
  let v : Value := .list [.number (.int 8), .number (.int 68), .number (.int 5), .dict [],
    .string "com.example.bad", .list [], .dict [("k", .string "(a b")]]
  obtain ⟨hresponse, hinvocation⟩ := failure_texts_delimited
  have hmade : e.Constructed := ⟨none, "com.example.bad", { args := some [.string ""] }, rfl⟩
  exact ⟨rfl, hresponse v m f rfl rfl,
    hinvocation (Store.empty.setFields ⟨1⟩ e) ⟨1⟩ e (.made .empty ⟨1⟩ hmade) rfl⟩

end Wamp
