import Mathlib.Data.List.Forall2
import Wamp.Proofs.Failure.Reachable

/-!
# What an invocation error displays

An invocation error keeps the message that was made when its URI and its positional arguments were
last set, and these are set in several ways: when it is made, with any arguments or with positional
ones only, when it is rebuilt from a payload, when a registry makes it for a failure, and whenever
it takes over the fields of another. `InvocationError.Displays` describes the message from the
present fields alone. `Store.Reachable.consistent_invocation` says that whatever a program does the
message fits this description, the URI is valid, and what is empty is absent.
-/

namespace Wamp

/-- A text is that of a value in running prose: a string stands for itself, any other value is
written as JSON, and a value that JSON has no word for leaves nothing. -/
inductive Value.Shows : Value → String → Prop
  | string (s : String) : Shows (.string s) s
  | json {v : Value} (hstring : ∀ s, v ≠ .string s) (hjson : v.hasJson = true) :
      Shows v (String.ofList v.json)
  | missing {v : Value} (hjson : v.hasJson = false) : Shows v ""

/-- The text of a value in running prose is the one that the value is given. -/
theorem Value.shows_iff {v : Value} {text : String} : v.Shows text ↔ text = v.plain := by
  have hplain (hstring : ∀ s, v ≠ .string s) : v.plain = v.quoted := by
    unfold plain
    split
    · exact absurd rfl (hstring _)
    · rfl
  constructor
  · intro h
    cases h with
    | string => rfl
    | json hstring hjson => rw [hplain hstring, quoted, if_pos hjson]
    | missing hjson =>
      have hstring (s : String) : v ≠ .string s := by
        rintro rfl
        cases hjson
      rw [hplain hstring, quoted, hjson, if_neg nofun]
  · rintro rfl
    by_cases hstring : ∃ s, v = .string s
    · obtain ⟨s, rfl⟩ := hstring
      exact .string s
    · have hstring (s : String) : v ≠ .string s := fun heq => hstring ⟨s, heq⟩
      rw [hplain hstring, quoted]
      split
      · next hjson => exact .json hstring hjson
      · next hjson => exact .missing (Bool.eq_false_iff.mpr hjson)

/-- Texts are those of values, one by one, if they are the ones that the values are given. -/
theorem Value.forall₂_shows_iff {vs : List Value} {texts : List String} :
    List.Forall₂ Shows vs texts ↔ texts = vs.map plain := by
  induction vs generalizing texts with
  | nil => exact List.forall₂_nil_left_iff
  | cons v vs ih =>
    cases texts with
    | nil => simp
    | cons text texts => rw [List.forall₂_cons, shows_iff, ih, List.map_cons, List.cons.injEq]

namespace InvocationError

/-- A message displays a URI, and behind a space the positional arguments that go with it, if there
are any, with a comma and a space between them. -/
inductive Displays (uri : String) : Option (List Value) → String → Prop
  | bare : Displays uri none uri
  | listed {args : List Value} {texts : List String} (h : List.Forall₂ Value.Shows args texts) :
      Displays uri (some args) (uri ++ " " ++ ", ".intercalate texts)

/-- What displays a URI and positional arguments is the message that is made from them. -/
theorem displays_iff {uri : String} {args : Option (List Value)} {message : String} :
    Displays uri args message ↔ message = render uri args := by
  constructor
  · intro h
    cases h with
    | bare => rfl
    | listed h => rw [Value.forall₂_shows_iff.mp h, render, commaSeparated]
  · rintro rfl
    cases args with
    | none => exact .bare
    | some args => exact .listed (Value.forall₂_shows_iff.mpr rfl)

/-- An invocation error whose parts go together: the URI is valid, what is empty is absent, and the
message and the text display the URI and the positional arguments that it has. -/
structure Consistent (e : InvocationError) : Prop where
  uri : Uri.isUri .default e.uri = true
  args : e.args ≠ some []
  kwargs : e.kwargs ≠ some []
  details : e.details ≠ some []
  message : Displays e.uri e.args e.message
  text : e.text = e.message

/-- The text of an invocation error is its message alone. -/
theorem text_eq_message (e : InvocationError) : e.text = e.message := rfl

/-- The parts of a normal invocation error go together. -/
theorem Normal.consistent {e : InvocationError} (h : e.Normal) : e.Consistent :=
  ⟨h.uri, h.args, h.kwargs, h.details, displays_iff.mpr h.rendered, e.text_eq_message⟩

/-- An invocation error with positional arguments only is made like any other. -/
theorem constructed_of_ofArgs {uri : String} {args : List Value} {e : InvocationError}
    (h : ofArgs uri args = .ok e) : e.Constructed := ⟨none, uri, { args := some args }, h⟩

end InvocationError

/-- However an invocation error was made, and whatever was set for it since, its parts go
together. -/
theorem Store.Reachable.consistent_invocation {s : Store} (h : s.Reachable) {id : InvocationId}
    {e : InvocationError} (he : s.invocation? id = some e) : e.Consistent :=
  (h.wellFormed.normal id e he).consistent

/-- An invocation error takes over the fields of a second one, and the second one then those of a
third, which was rebuilt from a payload with an empty list. The first one displays what the second
one was at that time, the second one what it is now. -/
theorem Store.Reachable.consistent_invocation_overwritten :
    let first : InvocationError := ⟨none, "com.example.first", none, none, none,
      "com.example.first", none⟩
    let second : InvocationError := ⟨none, "com.example.second",
      some [.string "a \"b\"", .list [.null, .string "c"]], none, none,
      "com.example.second a \"b\", [null,\"c\"]", none⟩
    let third : InvocationError := ⟨none, "com.example.third", none, none, none,
      "com.example.third", none⟩
    let made : Store := ((Store.empty.setFields ⟨1⟩ first).setFields ⟨2⟩ second).setFields ⟨3⟩ third
    let s : Store := (made.call (.set (.invocation ⟨1⟩) ⟨2⟩)).call (.set (.invocation ⟨2⟩) ⟨3⟩)
    s.Reachable ∧ (∃ e, s.invocation? ⟨1⟩ = some e ∧ e.Consistent ∧
        e.text = "com.example.second a \"b\", [null,\"c\"]") ∧
      ∃ e, s.invocation? ⟨2⟩ = some e ∧ e.Consistent ∧ e.text = "com.example.third" := by
  intro first second third made s
  have hfirst : first.Constructed := ⟨none, "com.example.first", {}, rfl⟩
  have hsecond : second.Constructed :=
    InvocationError.constructed_of_ofArgs
      (show InvocationError.ofArgs "com.example.second"
        [.string "a \"b\"", .list [.null, .string "c"]] = .ok second from rfl)
  have hthird : InvocationError.ofPayload
      (.dict [("uri", .string "com.example.third"), ("args", .list [])]) = .ok third := rfl
  have hmade : made.Reachable :=
    .rebuilt (.made (.made .empty ⟨1⟩ hfirst) ⟨2⟩ hsecond) ⟨3⟩ hthird
  have hs : s.Reachable := by
    refine .called (.called hmade ?_) ?_
    · rintro failure err ⟨⟩
      exact ⟨second, rfl⟩
    · rintro failure err ⟨⟩
      exact ⟨third, rfl⟩
  have hfirst' : s.invocation? ⟨1⟩ = some (first.overwriteWith second) := rfl
  have hsecond' : s.invocation? ⟨2⟩ = some (second.overwriteWith third) := rfl
  refine ⟨hs, ⟨_, hfirst', ?_, rfl⟩, _, hsecond', ?_, rfl⟩
  · exact hs.consistent_invocation hfirst'
  · exact hs.consistent_invocation hsecond'

end Wamp
