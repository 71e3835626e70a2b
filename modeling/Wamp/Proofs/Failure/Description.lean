import Wamp.Failure.Invocation
import Wamp.Proofs.Value.Json

/-!
# What a description tells

The description of an invocation error is one text with its URI, its positional arguments and its
labelled keyword arguments and details, all with the same comma and space between them. It can be
taken apart again from the front, because no JSON text begins like a label:
`InvocationError.describe_eq_describe_iff` says that errors of one name whose parts are plain have
the same description exactly if they have the same URI and the same parts.
-/

namespace Wamp.InvocationError

open Number (Stops stops_cons_iff)
open Json (Closes typeOf?)

/-- The parts of an invocation error are plain. -/
structure Plain (e : InvocationError) : Prop where
  args : ∀ items, e.args = some items → (Value.list items).Plain
  kwargs : ∀ d, e.kwargs = some d → (Value.dict d).Plain
  details : ∀ d, e.details = some d → (Value.dict d).Plain

/-! ## The parts of a description -/

/-- The text of a part of a description behind a comma and a space; nothing if there is none. -/
def behindComma {α : Type _} (text : α → List Char) : Option α → List Char
  | none => []
  | some a => ',' :: ' ' :: text a

/-- The text of positional arguments in a description. -/
def argsText (items : List Value) : List Char := [',', ' '].intercalate (items.map Value.json)

/-- The text of a labelled dictionary in a description. -/
def labelled (label : String) (d : Dict) : List Char := label.toList ++ (Value.dict d).json

/-- What follows the keyword arguments in a description. -/
def afterKwargs (e : InvocationError) : List Char :=
  behindComma (labelled "details=") e.details ++ [')']

/-- What follows the positional arguments in a description. -/
def afterArgs (e : InvocationError) : List Char :=
  behindComma (labelled "kwargs=") e.kwargs ++ e.afterKwargs

/-- A part that may be missing adds its text behind a comma and a space. -/
theorem flatMap_part {α : Type _} {text : α → String} {chars : α → List Char} (value : Option α)
    (h : ∀ a, value = some a → (text a).toList = chars a) :
    ((part text value).map String.toList).flatMap ([',', ' '] ++ ·) = behindComma chars value := by
  cases value with
  | none => rfl
  | some a => simp [part, behindComma, h a rfl]

/-- The characters of a description. -/
theorem toList_describe {e : InvocationError} (h : e.Plain) :
    e.describe.toList = e.name.toList ++ '(' ::
      (Json.quote e.uri ++ (behindComma argsText e.args ++ e.afterArgs)) := by
  have hitems (items : List Value) (hitems : e.args = some items) :
      (commaSeparated (items.map Value.quoted)).toList = argsText items :=
    Value.toList_commaSeparated_quoted fun v hv =>
      (Value.plain_list_iff.mp (h.args items hitems) v hv).isWire.hasJson
  have hlabelled (label : String) (d : Dict) :
      (label ++ (Value.dict d).quoted).toList = labelled label d := by
    rw [String.toList_append, Value.toList_quoted rfl, labelled]
  have hargs := flatMap_part e.args hitems
  have hkwargs := flatMap_part e.kwargs fun d _ => hlabelled "kwargs=" d
  have hdetails := flatMap_part e.details fun d _ => hlabelled "details=" d
  have huri : (Value.string e.uri).quoted.toList = Json.quote e.uri := Value.toList_quoted rfl
  simp only [describe, List.cons_append, List.nil_append, String.toList_append]
  rw [toList_commaSeparated_cons]
  simp only [List.map_append, List.flatMap_append, List.append_assoc, huri, hargs, hkwargs,
    hdetails]
  simp [afterArgs, afterKwargs]

/-! ## Taking a description apart -/

/-- A text that may follow the positional arguments: it is the end of a description or goes on with
a label, which no JSON text begins like. -/
inductive FollowsArgs : List Char → Prop
  | ending (more : List Char) : FollowsArgs (')' :: more)
  | label {c : Char} (hc : c = 'k' ∨ c = 'd') (more : List Char) :
      FollowsArgs (',' :: ' ' :: c :: more)

/-- What follows the positional arguments of a description may follow them. -/
theorem followsArgs_afterArgs (e : InvocationError) : FollowsArgs e.afterArgs := by
  unfold afterArgs afterKwargs
  cases e.kwargs with
  | some d => exact .label (.inl rfl) _
  | none =>
    cases e.details with
    | some d => exact .label (.inr rfl) _
    | none => exact .ending _

/-- No JSON text begins like a label. -/
theorem typeOf?_label {c : Char} (hc : c = 'k' ∨ c = 'd') : typeOf? c = none := by
  rcases hc with rfl | rfl
  · rfl
  · rfl

variable {rest rest' : List Char}

/-- What may follow the positional arguments ends a sequence of JSON texts. -/
theorem FollowsArgs.closes (h : FollowsArgs rest) : Closes Value.json [',', ' '] rest := by
  cases h with
  | ending more =>
    exact ⟨stops_cons_iff.mpr rfl, fun v _ => Value.json_append_ne_cons rfl v _ _, by simp⟩
  | @label c hc more =>
    refine ⟨stops_cons_iff.mpr rfl, fun v _ => Value.json_append_ne_cons rfl v _ _, ?_⟩
    intro v more' heq
    have hlabel : v.json ++ more' = c :: more := (List.cons.inj (List.cons.inj heq).2).2
    exact Value.json_append_ne_cons (typeOf?_label hc) v _ _ hlabel

/-- What may follow the positional arguments is not taken for positional arguments itself. -/
theorem FollowsArgs.ne_behindComma_argsText (h : FollowsArgs rest) (h' : FollowsArgs rest')
    (items : List Value) : rest ≠ ',' :: ' ' :: (argsText items ++ rest') := by
  intro heq
  cases h with
  | ending more => cases heq
  | @label c hc more =>
    have hlabel : c :: more = argsText items ++ rest' := (List.cons.inj (List.cons.inj heq).2).2
    cases items with
    | nil =>
      -- A label follows at once, but what may follow begins otherwise.
      rcases hc with rfl | rfl <;> cases h' <;> cases hlabel
    | cons v vs =>
      rw [argsText, List.map_cons, Json.intercalate_cons, List.append_assoc] at hlabel
      exact Value.json_append_ne_cons (typeOf?_label hc) v _ _ hlabel.symm

/-- The positional arguments are read off the front of what follows the URI. -/
theorem behindComma_argsText_inj {as bs : Option (List Value)}
    (has : ∀ items, as = some items → (Value.list items).Plain)
    (hbs : ∀ items, bs = some items → (Value.list items).Plain)
    (hrest : FollowsArgs rest) (hrest' : FollowsArgs rest')
    (h : behindComma argsText as ++ rest = behindComma argsText bs ++ rest') :
    as = bs ∧ rest = rest' := by
  cases as with
  | none =>
    cases bs with
    | none => exact ⟨rfl, h⟩
    | some items => exact absurd h (hrest.ne_behindComma_argsText hrest' items)
  | some items =>
    cases bs with
    | none => exact absurd h.symm (hrest'.ne_behindComma_argsText hrest items)
    | some items' =>
      have hseparator (more : List Char) : Stops ([',', ' '] ++ more) := stops_cons_iff.mpr rfl
      have hitems := Value.plain_list_iff.mp (has items rfl)
      have hitems' := Value.plain_list_iff.mp (hbs items' rfl)
      obtain ⟨rfl, hrests⟩ := Json.intercalate_append_inj hseparator
        (fun v hv => (hitems v hv).legible) hitems' hrest.closes hrest'.closes
        (List.cons.inj (List.cons.inj h).2).2
      exact ⟨rfl, hrests⟩

/-- A labelled dictionary is read off the front of what does not go on with its label by itself. -/
theorem behindComma_labelled_inj {label : String} {d d' : Option Dict}
    (hd : ∀ entries, d = some entries → (Value.dict entries).Plain)
    (hd' : ∀ entries, d' = some entries → (Value.dict entries).Plain)
    (hstops : Stops rest) (hstops' : Stops rest')
    (hrest : ∀ entries more, rest ≠ ',' :: ' ' :: (labelled label entries ++ more))
    (hrest' : ∀ entries more, rest' ≠ ',' :: ' ' :: (labelled label entries ++ more))
    (h : behindComma (labelled label) d ++ rest = behindComma (labelled label) d' ++ rest') :
    d = d' ∧ rest = rest' := by
  cases d with
  | none =>
    cases d' with
    | none => exact ⟨rfl, h⟩
    | some entries => exact absurd h (hrest entries rest')
  | some entries =>
    cases d' with
    | none => exact absurd h.symm (hrest' entries rest)
    | some entries' =>
      have hlabelled : label.toList ++ ((Value.dict entries).json ++ rest) =
          label.toList ++ ((Value.dict entries').json ++ rest') := by
        simpa [behindComma, labelled] using h
      obtain ⟨heq, hrests⟩ := (hd entries rfl).legible (hd' entries' rfl) hstops hstops'
        (List.append_cancel_left hlabelled)
      obtain rfl := Value.dict.inj heq
      exact ⟨rfl, hrests⟩

/-- What follows the keyword arguments does not go on with a digit or with keyword arguments. -/
theorem stops_afterKwargs (e : InvocationError) : Stops e.afterKwargs ∧
    ∀ entries more, e.afterKwargs ≠ ',' :: ' ' :: (labelled "kwargs=" entries ++ more) := by
  unfold afterKwargs
  cases e.details with
  | none => exact ⟨stops_cons_iff.mpr rfl, nofun⟩
  | some d => exact ⟨stops_cons_iff.mpr rfl, nofun⟩

/-- Invocation errors of one name whose parts are plain have the same description exactly if they
have the same URI, the same arguments and the same details. -/
theorem describe_eq_describe_iff {a b : InvocationError} (hname : a.name = b.name) (ha : a.Plain)
    (hb : b.Plain) : a.describe = b.describe ↔
      a.uri = b.uri ∧ a.args = b.args ∧ a.kwargs = b.kwargs ∧ a.details = b.details := by
  constructor
  · intro h
    have hchars : Json.quote a.uri ++ (behindComma argsText a.args ++ a.afterArgs) =
        Json.quote b.uri ++ (behindComma argsText b.args ++ b.afterArgs) := by
      have hchars := congrArg String.toList h
      rw [toList_describe ha, toList_describe hb, hname] at hchars
      exact (List.cons.inj (List.append_cancel_left hchars)).2
    obtain ⟨huri, hparts⟩ := Json.quote_append_inj hchars
    obtain ⟨hargs, hafter⟩ := behindComma_argsText_inj ha.args hb.args a.followsArgs_afterArgs
      b.followsArgs_afterArgs hparts
    obtain ⟨hkwargs, hafter⟩ := behindComma_labelled_inj ha.kwargs hb.kwargs
      a.stops_afterKwargs.1 b.stops_afterKwargs.1 a.stops_afterKwargs.2 b.stops_afterKwargs.2 hafter
    have hend : Stops [')'] := stops_cons_iff.mpr rfl
    obtain ⟨hdetails, -⟩ := behindComma_labelled_inj ha.details hb.details hend hend nofun nofun
      hafter
    exact ⟨huri, hargs, hkwargs, hdetails⟩
  · rintro ⟨huri, hargs, hkwargs, hdetails⟩
    rw [describe, describe, hname, huri, hargs, hkwargs, hdetails]

/-- One argument with a comma in it and two arguments are displayed in the same way, but they are
not described in the same way. -/
theorem describe_eq_describe_iff_comma :
    let a : InvocationError := ⟨none, "com.example.bad", some [.string "1, 2"], none,
      some [("kwargs=", .list [])], "com.example.bad 1, 2", none⟩
    let b : InvocationError := ⟨none, "com.example.bad",
      some [.number (.int 1), .number (.int 2)], none, some [("kwargs=", .list [])],
      "com.example.bad 1, 2", none⟩
    a.Plain ∧ b.Plain ∧ a.message = b.message ∧ a.describe ≠ b.describe := by
  intro a b
  have hdetails : (Value.dict [("kwargs=", .list [])]).Plain := by simp
  have ha : a.Plain := by
    refine ⟨?_, nofun, ?_⟩
    · rintro items ⟨⟩
      exact .list (List.forall_mem_singleton.mpr (.string "1, 2"))
    · rintro d ⟨⟩
      exact hdetails
  have hb : b.Plain := by
    refine ⟨?_, nofun, ?_⟩
    · rintro items ⟨⟩
      exact .list (List.forall_mem_cons.mpr
        ⟨.int (by decide), List.forall_mem_singleton.mpr (.int (by decide))⟩)
    · rintro d ⟨⟩
      exact hdetails
  have hname : a.name = b.name := rfl
  refine ⟨ha, hb, rfl, fun h => ?_⟩
  obtain ⟨-, hargs, -⟩ := (describe_eq_describe_iff hname ha hb).mp h
  cases hargs

end Wamp.InvocationError
