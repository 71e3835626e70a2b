import Wamp.Proofs.Assoc
import Wamp.Proofs.Value.Wire
import Wamp.Schema.Basic

/-!
# What each schema accepts

For every schema that the shapes of messages are made of, the values that it accepts and what it
makes of them, as one equivalence each. A schema of payload values accepts what may travel and
strips it; the others accept one form of value and hand its content on.
-/

namespace Wamp

/-- An id: an integer from zero up to `2 ^ 53`. -/
def Number.IsId (n : Number) : Prop := ∃ i : Int, n.toInt? = some i ∧ 0 ≤ i ∧ i ≤ Nat.pow 2 53

/-- A result is changed exactly when it is there. -/
theorem map_eq_ok_iff {ε α β : Type _} {x : Except ε α} {f : α → β} {b : β} :
    x.map f = .ok b ↔ ∃ a, x = .ok a ∧ f a = b := by
  cases x with
  | ok a => simp [Except.map]
  | error e => simp [Except.map]

namespace Checked

variable {α β : Type _}

/-- A result without issues is the result. -/
@[simp]
theorem result?_eq_some_iff {x : Checked α} {a : α} : x.result? = some a ↔ x = .ok a := by
  cases x with
  | ok b => simp [result?]
  | error issues => simp [result?]

/-- A refusal is no result. -/
theorem refuse_ne_ok {defect : Defect} {a : α} : (refuse defect : Checked α) ≠ .ok a := nofun

end Checked

namespace Schema

open Checked (and_eq_ok_iff below_eq_ok_iff refuse_ne_ok)

/-! ## Payload values -/

/-- A value is accepted if it may travel. -/
theorem value_eq_ok_iff {v w : Value} : value v = .ok w ↔ v.IsWire ∧ w = v.stripped := by
  rw [← Value.wire?_eq_some_iff, value]
  cases v.wire? with
  | some x => simp
  | none => simp [refuse_ne_ok]

/-- The elements of a list are accepted, whatever the position of the first, if all may travel. -/
theorem elements_eq_ok_iff {position : Nat} {items ws : List Value} :
    elements position items = .ok ws ↔
      (∀ v ∈ items, v.IsWire) ∧ ws = Value.strippedItems items := by
  -- The position only names the issues, so the hypothesis has to hold at every one.
  induction items generalizing position ws with
  | nil => simp [elements, Value.strippedItems, eq_comm]
  | cons v vs ih =>
    rw [elements, map_eq_ok_iff, Value.strippedItems, List.forall_mem_cons]
    constructor
    · rintro ⟨⟨w, ws'⟩, hparts, rfl⟩
      rw [and_eq_ok_iff, below_eq_ok_iff, value_eq_ok_iff, ih] at hparts
      obtain ⟨⟨hv, rfl⟩, hvs, rfl⟩ := hparts
      exact ⟨⟨hv, hvs⟩, rfl⟩
    · rintro ⟨⟨hv, hvs⟩, rfl⟩
      refine ⟨(v.stripped, Value.strippedItems vs), ?_, rfl⟩
      rw [and_eq_ok_iff, below_eq_ok_iff, value_eq_ok_iff, ih]
      exact ⟨⟨hv, rfl⟩, hvs, rfl⟩

/-- A list is accepted if it may travel. -/
theorem list_eq_ok_iff {v : Value} {ws : List Value} :
    list v = .ok ws ↔
      ∃ items, v = .list items ∧ (Value.list items).IsWire ∧ ws = Value.strippedItems items := by
  cases v with
  | primitive p => simp [list, refuse_ne_ok]
  | function => simp [list, refuse_ne_ok]
  | list items => simp [list, elements_eq_ok_iff, Value.isWire_list_iff]
  | dict entries => simp [list, refuse_ne_ok]

/-- The entries of a dictionary are accepted if all their values may travel. -/
theorem entries_eq_ok_iff {d ws : Dict} :
    entries d = .ok ws ↔ (∀ e ∈ d, e.2.IsWire) ∧ ws = Value.strippedEntries d := by
  induction d generalizing ws with
  | nil => simp [entries, Value.strippedEntries, eq_comm]
  | cons head rest ih =>
    obtain ⟨key, v⟩ := head
    rw [entries, map_eq_ok_iff, Value.strippedEntries, List.forall_mem_cons]
    constructor
    · rintro ⟨⟨w, ws'⟩, hparts, rfl⟩
      rw [and_eq_ok_iff, below_eq_ok_iff, value_eq_ok_iff, ih] at hparts
      obtain ⟨⟨hv, rfl⟩, hrest, rfl⟩ := hparts
      exact ⟨⟨hv, hrest⟩, rfl⟩
    · rintro ⟨⟨hv, hrest⟩, rfl⟩
      refine ⟨(v.stripped, Value.strippedEntries rest), ?_, rfl⟩
      rw [and_eq_ok_iff, below_eq_ok_iff, value_eq_ok_iff, ih]
      exact ⟨⟨hv, rfl⟩, hrest, rfl⟩

/-- A dictionary whose values may all travel holds no function, so it is no promise. -/
theorem isPromise_eq_false {d : Dict} (h : ∀ e ∈ d, e.2.IsWire) : d.isPromise = false := by
  have hnone : d.hasFunction "then" = false := by
    rw [Dict.hasFunction, Option.any_eq_false]
    intro v hv
    have hwire := h _ (Assoc.mem_of_get? hv)
    cases v with
    | function => exact absurd hwire Value.not_isWire_function
    | primitive p | list items | dict entries => simp [Value.isFunction]
  rw [Dict.isPromise, hnone, Bool.false_and]

/-- A dictionary is accepted if it may travel. -/
theorem dict_eq_ok_iff {v : Value} {ws : Dict} :
    dict v = .ok ws ↔
      ∃ d : Dict, v = .dict d ∧ (Value.dict d).IsWire ∧ ws = Value.strippedEntries d := by
  cases v with
  | primitive p => simp [dict, object, refuse_ne_ok]
  | function => simp [dict, object, refuse_ne_ok]
  | list items => simp [dict, object, refuse_ne_ok]
  | dict d =>
    rw [dict, object]
    constructor
    · intro h
      split at h
      -- A promise is refused before its entries are looked at.
      · exact absurd h refuse_ne_ok
      · obtain ⟨hwire, rfl⟩ := entries_eq_ok_iff.1 h
        exact ⟨d, rfl, .dict hwire, rfl⟩
    · rintro ⟨d', heq, hwire, rfl⟩
      obtain rfl := Value.dict.inj heq
      have hvalues := Value.isWire_dict_iff.1 hwire
      rw [isPromise_eq_false hvalues, if_neg (by simp)]
      exact entries_eq_ok_iff.2 ⟨hvalues, rfl⟩

/-- A list that may travel is accepted stripped. -/
theorem list_of_isWire {items : List Value} (h : (Value.list items).IsWire) :
    list (.list items) = .ok (Value.strippedItems items) :=
  list_eq_ok_iff.2 ⟨items, rfl, h, rfl⟩

/-- A dictionary that may travel is accepted stripped. -/
theorem dict_of_isWire {d : Dict} (h : (Value.dict d).IsWire) :
    dict (.dict d) = .ok (Value.strippedEntries d) :=
  dict_eq_ok_iff.2 ⟨d, rfl, h, rfl⟩

/-- A list that travels as it is is accepted unchanged. -/
theorem list_of_portable {items : List Value} (h : (Value.list items).Portable) :
    list (.list items) = .ok items := by
  have hstripped := h.2.stripped_eq
  rw [Value.stripped, Value.list.injEq] at hstripped
  rw [list_of_isWire h.1, hstripped]

/-- A dictionary that travels as it is is accepted unchanged. -/
theorem dict_of_portable {d : Dict} (h : (Value.dict d).Portable) : dict (.dict d) = .ok d := by
  have hstripped := h.2.stripped_eq
  rw [Value.stripped, Value.dict.injEq] at hstripped
  rw [dict_of_isWire h.1, hstripped]

/-! ## The other parts of a message -/

/-- A URI is accepted if it is one under the default policy. -/
theorem uri_eq_ok_iff {v : Value} {s : String} :
    uri v = .ok s ↔ v = .string s ∧ Uri.isUri .default s = true := by
  rw [uri.eq_def]
  split
  · rename_i t
    constructor
    · intro h
      split at h
      · rename_i ht
        obtain rfl := Except.ok.inj h
        exact ⟨rfl, ht⟩
      · exact absurd h refuse_ne_ok
    · rintro ⟨heq, hs⟩
      obtain rfl : t = s := by simpa using heq
      rw [if_pos hs]
  · rename_i hstring
    constructor
    · intro h
      exact absurd h refuse_ne_ok
    · rintro ⟨rfl, -⟩
      exact absurd rfl (hstring s)

/-- The code of a kind is accepted as that kind. -/
theorem ofCode?_eq_some_iff {n : Number} {kind : MessageKind} :
    MessageKind.ofCode? n = some kind ↔ n = .int kind.code := by
  constructor
  · intro h
    simpa using List.find?_some h
  · rintro rfl
    exact MessageKind.ofCode?_code kind

/-- A message kind is accepted as its code. -/
theorem messageKind_eq_ok_iff {v : Value} {kind : MessageKind} :
    messageKind v = .ok kind ↔ v = .number (.int kind.code) := by
  rw [messageKind.eq_def]
  split
  · rename_i n
    rw [Value.primitive.injEq, Primitive.number.injEq, ← ofCode?_eq_some_iff]
    cases MessageKind.ofCode? n with
    | some k => simp
    | none => simp [refuse_ne_ok]
  · rename_i hnumber
    constructor
    · intro h
      exact absurd h refuse_ne_ok
    · rintro rfl
      exact absurd rfl (hnumber _)

/-- The code of the given kind is the one value accepted as its literal. -/
theorem literal_eq_ok_iff {kind : MessageKind} {v : Value} {u : Unit} :
    literal kind v = .ok u ↔ v = .number (.int kind.code) := by
  rw [literal.eq_def]
  split
  · rename_i n
    rw [Value.primitive.injEq, Primitive.number.injEq]
    by_cases hn : n = .int kind.code
    · simp [hn]
    · simp [hn, refuse_ne_ok]
  · rename_i hnumber
    constructor
    · intro h
      exact absurd h refuse_ne_ok
    · rintro rfl
      exact absurd rfl (hnumber _)

/-- A number has no defect as an id exactly when it is one. -/
theorem idDefects_eq_nil_iff {n : Number} : idDefects n = [] ↔ n.IsId := by
  cases n with
  | nan => simp [idDefects, Number.IsId, Number.toInt?]
  | infinity negative => simp [idDefects, Number.IsId, Number.toInt?]
  | negZero => simp [idDefects, Number.IsId, Number.toInt?, Number.isBelow, Number.isAbove, maxId]
  | int i =>
    have hmax : maxId = (Nat.pow 2 53 : Nat) := rfl
    have hdefects : idDefects (.int i) = [] ↔ ¬ i < 0 ∧ ¬ maxId < i := by
      simp [idDefects, Number.toInt?, Number.isBelow, Number.isAbove]
    rw [hdefects, hmax]
    simp only [Number.IsId, Number.toInt?, Option.some.injEq, exists_eq_left']
    omega
  | fraction numerator halvings odd => simp [idDefects, Number.IsId, Number.toInt?]

/-- An id is accepted if it is one. -/
theorem id_eq_ok_iff {v : Value} {n : Number} :
    Schema.id v = .ok n ↔ v = .number n ∧ n.IsId := by
  rw [Schema.id.eq_def]
  split
  -- `nan` is no number to the schema; every other number is held to the rules for ids.
  · constructor
    · intro h
      exact absurd h refuse_ne_ok
    · rintro ⟨heq, i, hi, -⟩
      obtain rfl : Number.nan = n := by simpa using heq
      exact nomatch hi
  · rename_i m _
    split
    · rename_i hnone
      rw [Except.ok.injEq, Value.primitive.injEq, Primitive.number.injEq]
      constructor
      · rintro rfl
        exact ⟨rfl, idDefects_eq_nil_iff.1 hnone⟩
      · exact fun h => h.1
    · rename_i defects hdefects
      constructor
      · exact fun h => nomatch h
      · rintro ⟨heq, hid⟩
        obtain rfl : m = n := by simpa using heq
        exact absurd (idDefects_eq_nil_iff.2 hid) hdefects
  · rename_i hnumber
    constructor
    · intro h
      exact absurd h refuse_ne_ok
    · rintro ⟨rfl, -⟩
      exact absurd rfl (hnumber n)

/-- A list of three elements is accepted if each of them is and there is no other. -/
theorem triple_eq_ok_iff {α β γ : Type _} {first : Value → Checked α} {second : Value → Checked β}
    {third : Value → Checked γ} {v : Value} {a : α} {b : β} {c : γ} :
    triple first second third v = .ok (a, b, c) ↔
      ∃ x y z, v = .list [x, y, z] ∧ first x = .ok a ∧ second y = .ok b ∧ third z = .ok c := by
  rw [triple.eq_def]
  split
  · rename_i x y z rest
    cases rest with
    | nil =>
      rw [List.isEmpty_nil, if_pos rfl, and_eq_ok_iff, and_eq_ok_iff, below_eq_ok_iff,
        below_eq_ok_iff, below_eq_ok_iff]
      constructor
      · exact fun h => ⟨x, y, z, rfl, h⟩
      · rintro ⟨x', y', z', heq, h⟩
        obtain ⟨rfl, rfl, rfl⟩ : x = x' ∧ y = y' ∧ z = z' := by simpa using heq
        exact h
    | cons w ws =>
      -- The issue of the elements beyond the third stays, whatever the parts are.
      have hrefused : ∀ parts : Checked (α × β × γ),
          ((Checked.refuse (.tooManyElements 3) : Checked Unit).and parts).map (·.2)
            ≠ .ok (a, b, c) := by
        intro parts h
        cases parts with
        | ok p => exact nomatch h
        | error issues => exact nomatch h
      simp [hrefused]
  · rename_i items hshort
    constructor
    · intro h
      exact absurd h refuse_ne_ok
    · rintro ⟨x, y, z, heq, -⟩
      exact absurd (Value.list.inj heq) (hshort x y z [])
  · rename_i hlist
    constructor
    · intro h
      exact absurd h refuse_ne_ok
    · rintro ⟨x, y, z, rfl, -⟩
      exact absurd rfl (hlist _)

/-- A word is accepted if it is one of those to choose from. -/
theorem word_eq_ok_iff {words : List String} {v : Value} {s : String} :
    word words v = .ok s ↔ v = .string s ∧ s ∈ words := by
  rw [word.eq_def]
  split
  · rename_i t
    rw [Value.primitive.injEq, Primitive.string.injEq]
    constructor
    · intro h
      split at h
      · rename_i ht
        obtain rfl := Except.ok.inj h
        exact ⟨rfl, ht⟩
      · exact absurd h refuse_ne_ok
    · rintro ⟨rfl, hs⟩
      rw [if_pos hs]
  · rename_i hstring
    constructor
    · intro h
      exact absurd h refuse_ne_ok
    · rintro ⟨rfl, -⟩
      exact absurd rfl (hstring s)

/-! ## What is accepted may travel -/

/-- A list that is accepted may travel. -/
theorem isWire_of_list {v : Value} {ws : List Value} (h : list v = .ok ws) : v.IsWire := by
  obtain ⟨items, rfl, hwire, -⟩ := list_eq_ok_iff.1 h
  exact hwire

/-- A dictionary that is accepted may travel. -/
theorem isWire_of_dict {v : Value} {ws : Dict} (h : dict v = .ok ws) : v.IsWire := by
  obtain ⟨d, rfl, hwire, -⟩ := dict_eq_ok_iff.1 h
  exact hwire

/-- A URI that is accepted may travel. -/
theorem isWire_of_uri {v : Value} {s : String} (h : uri v = .ok s) : v.IsWire := by
  obtain ⟨rfl, -⟩ := uri_eq_ok_iff.1 h
  exact .string s

/-- A message kind that is accepted may travel. -/
theorem isWire_of_messageKind {v : Value} {kind : MessageKind} (h : messageKind v = .ok kind) :
    v.IsWire := by
  obtain rfl := messageKind_eq_ok_iff.1 h
  exact .number nofun

/-- An id that is accepted may travel. -/
theorem isWire_of_id {v : Value} {n : Number} (h : Schema.id v = .ok n) : v.IsWire := by
  obtain ⟨rfl, i, hi, -⟩ := id_eq_ok_iff.1 h
  refine .number ?_
  rintro rfl
  cases hi

end Schema

end Wamp
