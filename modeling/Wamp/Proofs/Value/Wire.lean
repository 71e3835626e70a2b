import Wamp.Value.Wire

/-!
# What reading for the wire accepts and keeps

`Value.wire?` checks a value and copies it in one pass. Here the two halves stand apart and are
stated without that pass: `Value.IsWire` says which values may travel, and `Value.stripped` is the
value without the entries under the reserved key. `Value.wire?_eq_some_iff` is the whole of the
function: it accepts exactly the values that may travel and returns them stripped. A value that
holds no reserved key, which `Value.Unreserved` says, is its own stripped form
(`Value.Unreserved.stripped_eq`), so reading returns it unchanged.
-/

namespace Wamp

namespace Value

/-- Induction on values. A value holds values inside lists and dictionaries, and the hypothesis for
one of these is that the motive holds of every part. -/
@[elab_as_elim, induction_eliminator]
theorem induction {motive : Value → Prop}
    (primitive : ∀ p, motive (.primitive p)) (function : motive .function)
    (list : ∀ items, (∀ v ∈ items, motive v) → motive (.list items))
    (dict : ∀ entries, (∀ e ∈ entries, motive e.2) → motive (.dict entries)) :
    ∀ v, motive v
  | .primitive p => primitive p
  | .function => function
  | .list items => list items fun v _ => induction primitive function list dict v
  | .dict entries => dict entries fun e _ => induction primitive function list dict e.2
termination_by v => sizeOf v
decreasing_by
  -- A part of a list or of a dictionary is smaller than the whole, by the size of its items.
  · rename_i h
    have := List.sizeOf_lt_of_mem h
    simp only [Value.list.sizeOf_spec]
    omega
  · rename_i h
    have := List.sizeOf_lt_of_mem h
    obtain ⟨key, v⟩ := e
    simp only [Prod.mk.sizeOf_spec] at this
    simp only [Value.dict.sizeOf_spec]
    omega

/-- A value that may travel: null, a truth value, a number, a string, or a list or a dictionary of
such values. -/
inductive IsWire : Value → Prop
  | null : IsWire .null
  | bool (b : Bool) : IsWire (.bool b)
  | number {n : Number} (h : n ≠ .nan) : IsWire (.number n)
  | string (s : String) : IsWire (.string s)
  | list {items : List Value} (h : ∀ v ∈ items, IsWire v) : IsWire (.list items)
  | dict {entries : Dict} (h : ∀ e ∈ entries, IsWire e.2) : IsWire (.dict entries)

/-- A value none of whose dictionaries, at any depth, has the reserved key. -/
inductive Unreserved : Value → Prop
  | primitive (p : Primitive) : Unreserved (.primitive p)
  | function : Unreserved .function
  | list {items : List Value} (h : ∀ v ∈ items, Unreserved v) : Unreserved (.list items)
  | dict {entries : Dict} (hkeys : ∀ e ∈ entries, e.1 ≠ reservedKey)
      (h : ∀ e ∈ entries, Unreserved e.2) : Unreserved (.dict entries)

/-- A value that travels as it is. -/
def Portable (v : Value) : Prop := v.IsWire ∧ v.Unreserved

mutual

/-- The value without the entries under the reserved key, at every depth. -/
def stripped : Value → Value
  | .primitive p => .primitive p
  | .function => .function
  | .list items => .list (strippedItems items)
  | .dict entries => .dict (strippedEntries entries)

/-- The items of a list, each stripped. -/
def strippedItems : List Value → List Value
  | [] => []
  | v :: vs => v.stripped :: strippedItems vs

/-- The entries of a dictionary other than the reserved one, each stripped. -/
def strippedEntries : List (String × Value) → List (String × Value)
  | [] => []
  | (key, v) :: rest =>
    if key = reservedKey then strippedEntries rest else (key, v.stripped) :: strippedEntries rest

end

/-- Stripping a list is stripping its items. -/
theorem strippedItems_eq_map (items : List Value) : strippedItems items = items.map stripped := by
  induction items with
  | nil => rfl
  | cons v vs ih => rw [strippedItems, ih, List.map_cons]

/-- An entry is left after stripping exactly when it comes from an entry of another key than the
reserved one. -/
theorem mem_strippedEntries {entries : Dict} {e : String × Value} :
    e ∈ strippedEntries entries ↔
      e.1 ≠ reservedKey ∧ ∃ v, (e.1, v) ∈ entries ∧ e.2 = v.stripped := by
  obtain ⟨key, w⟩ := e
  induction entries with
  | nil => simp [strippedEntries]
  | cons head rest ih =>
    obtain ⟨k, v⟩ := head
    by_cases hk : k = reservedKey
    -- The head goes, so what is left comes from the rest.
    · rw [strippedEntries, if_pos hk, ih]
      constructor
      · rintro ⟨hkey, x, hx, hw⟩
        exact ⟨hkey, x, List.mem_cons_of_mem _ hx, hw⟩
      · rintro ⟨hkey, x, hx, hw⟩
        rcases List.mem_cons.mp hx with heq | hx
        · exact absurd ((Prod.mk.inj heq).1.trans hk) hkey
        · exact ⟨hkey, x, hx, hw⟩
    -- The head stays, stripped, in front of what is left of the rest.
    · rw [strippedEntries, if_neg hk, List.mem_cons, ih]
      constructor
      · rintro (heq | ⟨hkey, x, hx, hw⟩)
        · obtain ⟨rfl, rfl⟩ := Prod.mk.inj heq
          exact ⟨hk, v, List.mem_cons_self, rfl⟩
        · exact ⟨hkey, x, List.mem_cons_of_mem _ hx, hw⟩
      · rintro ⟨hkey, x, hx, hw⟩
        rcases List.mem_cons.mp hx with heq | hx
        · obtain ⟨rfl, rfl⟩ := Prod.mk.inj heq
          exact .inl (Prod.ext rfl hw)
        · exact .inr ⟨hkey, x, hx, hw⟩

/-! ## Values that may travel -/

/-- Which primitives may travel. -/
@[simp]
theorem isWire_primitive_iff {p : Primitive} : (Value.primitive p).IsWire ↔ p.isWire = true := by
  constructor
  · intro h
    cases h with
    | null => rfl
    | bool b => rfl
    | number hn => simpa [Primitive.isWire] using hn
    | string s => rfl
  · intro h
    cases p with
    | undefined | bigint | symbol => simp [Primitive.isWire] at h
    | null => exact .null
    | bool b => exact .bool b
    | number n => exact .number (by simpa [Primitive.isWire] using h)
    | string s => exact .string s

/-- No function may travel. -/
@[simp]
theorem not_isWire_function : ¬ Value.function.IsWire := nofun

/-- A list may travel exactly when all its items may. -/
@[simp]
theorem isWire_list_iff {items : List Value} :
    (Value.list items).IsWire ↔ ∀ v ∈ items, v.IsWire :=
  ⟨fun | .list h => h, .list⟩

/-- A dictionary may travel exactly when all its values may. -/
@[simp]
theorem isWire_dict_iff {entries : Dict} :
    (Value.dict entries).IsWire ↔ ∀ e ∈ entries, e.2.IsWire :=
  ⟨fun | .dict h => h, .dict⟩

/-- The items of a list are read for the wire if each of them is. -/
theorem wireItems?_eq_some_iff {items ws : List Value}
    (h : ∀ v ∈ items, ∀ w, v.wire? = some w ↔ v.IsWire ∧ w = v.stripped) :
    wireItems? items = some ws ↔ (∀ v ∈ items, v.IsWire) ∧ ws = strippedItems items := by
  induction items generalizing ws with
  | nil => simp [wireItems?, strippedItems, eq_comm]
  | cons v vs ih =>
    rw [List.forall_mem_cons] at h
    obtain ⟨hv, hvs⟩ := h
    rw [wireItems?, strippedItems, List.forall_mem_cons]
    constructor
    · intro heq
      split at heq
      · rename_i w ws' hw hws
        obtain ⟨hwire, rfl⟩ := (hv _).1 hw
        obtain ⟨hrest, rfl⟩ := (ih hvs).1 hws
        exact ⟨⟨hwire, hrest⟩, (Option.some.inj heq).symm⟩
      · exact nomatch heq
    · rintro ⟨⟨hwire, hrest⟩, rfl⟩
      rw [(hv _).2 ⟨hwire, rfl⟩, (ih hvs).2 ⟨hrest, rfl⟩]

/-- The entries of a dictionary are read for the wire if the value of each of them is, the reserved
one included. -/
theorem wireEntries?_eq_some_iff {entries ws : Dict}
    (h : ∀ e ∈ entries, ∀ w, e.2.wire? = some w ↔ e.2.IsWire ∧ w = e.2.stripped) :
    wireEntries? entries = some ws ↔
      (∀ e ∈ entries, e.2.IsWire) ∧ ws = strippedEntries entries := by
  induction entries generalizing ws with
  | nil => simp [wireEntries?, strippedEntries, eq_comm]
  | cons head rest ih =>
    obtain ⟨key, v⟩ := head
    rw [List.forall_mem_cons] at h
    obtain ⟨hv, hrest⟩ := h
    rw [wireEntries?, strippedEntries, List.forall_mem_cons]
    constructor
    · intro heq
      split at heq
      · rename_i w ws' hw hws
        obtain ⟨hwire, rfl⟩ := (hv _).1 hw
        obtain ⟨hwires, rfl⟩ := (ih hrest).1 hws
        exact ⟨⟨hwire, hwires⟩, (Option.some.inj heq).symm⟩
      · exact nomatch heq
    · rintro ⟨⟨hwire, hwires⟩, rfl⟩
      rw [(hv _).2 ⟨hwire, rfl⟩, (ih hrest).2 ⟨hwires, rfl⟩]

/-- Reading for the wire accepts exactly the values that may travel and returns them stripped. -/
theorem wire?_eq_some_iff {v w : Value} : v.wire? = some w ↔ v.IsWire ∧ w = v.stripped := by
  induction v generalizing w with
  | primitive p =>
    rw [wire?, stripped, isWire_primitive_iff]
    by_cases h : p.isWire = true
    · simp [h, eq_comm]
    · simp [h]
  | function => simp [wire?, not_isWire_function]
  | list items ih =>
    have hitems (ws : List Value) :
        wireItems? items = some ws ↔ (∀ v ∈ items, v.IsWire) ∧ ws = strippedItems items :=
      wireItems?_eq_some_iff fun v hv w => ih v hv
    rw [wire?, stripped, Option.map_eq_some_iff, isWire_list_iff]
    constructor
    · rintro ⟨ws, hws, rfl⟩
      obtain ⟨hwire, rfl⟩ := (hitems ws).1 hws
      exact ⟨hwire, rfl⟩
    · rintro ⟨hwire, rfl⟩
      exact ⟨_, (hitems _).2 ⟨hwire, rfl⟩, rfl⟩
  | dict entries ih =>
    have hentries (ws : Dict) : wireEntries? entries = some ws ↔
        (∀ e ∈ entries, e.2.IsWire) ∧ ws = strippedEntries entries :=
      wireEntries?_eq_some_iff fun e he w => ih e he
    rw [wire?, stripped, Option.map_eq_some_iff, isWire_dict_iff]
    constructor
    · rintro ⟨ws, hws, rfl⟩
      obtain ⟨hwire, rfl⟩ := (hentries ws).1 hws
      exact ⟨hwire, rfl⟩
    · rintro ⟨hwire, rfl⟩
      exact ⟨_, (hentries _).2 ⟨hwire, rfl⟩, rfl⟩

/-! ## Stripping -/

/-- A primitive has no keys. -/
@[simp]
theorem unreserved_primitive (p : Primitive) : (Value.primitive p).Unreserved := .primitive p

/-- A list is without reserved keys exactly when all its items are. -/
@[simp]
theorem unreserved_list_iff {items : List Value} :
    (Value.list items).Unreserved ↔ ∀ v ∈ items, v.Unreserved :=
  ⟨fun | .list h => h, .list⟩

/-- A dictionary is without reserved keys exactly when it has none itself and all its values are
without them. -/
@[simp]
theorem unreserved_dict_iff {entries : Dict} :
    (Value.dict entries).Unreserved ↔
      (∀ e ∈ entries, e.1 ≠ reservedKey) ∧ ∀ e ∈ entries, e.2.Unreserved :=
  ⟨fun | .dict hkeys h => ⟨hkeys, h⟩, fun h => .dict h.1 h.2⟩

/-- Nothing is stripped from a dictionary without the reserved key if nothing is stripped from its
values. -/
theorem strippedEntries_eq_self {entries : Dict} (hkeys : ∀ e ∈ entries, e.1 ≠ reservedKey)
    (hvalues : ∀ e ∈ entries, e.2.stripped = e.2) : strippedEntries entries = entries := by
  induction entries with
  | nil => rfl
  | cons head rest ih =>
    obtain ⟨key, v⟩ := head
    rw [List.forall_mem_cons] at hkeys hvalues
    rw [strippedEntries, if_neg hkeys.1, hvalues.1, ih hkeys.2 hvalues.2]

/-- A value without reserved keys is its own stripped form. -/
theorem Unreserved.stripped_eq {v : Value} (h : v.Unreserved) : v.stripped = v := by
  induction v with
  | primitive p => rfl
  | function => rfl
  | list items ih =>
    rw [unreserved_list_iff] at h
    have hitems : items.map stripped = items :=
      (List.map_congr_left fun v hv => ih v hv (h v hv)).trans (List.map_id _)
    rw [stripped, strippedItems_eq_map, hitems]
  | dict entries ih =>
    obtain ⟨hkeys, h⟩ := unreserved_dict_iff.1 h
    rw [stripped, strippedEntries_eq_self hkeys fun e he => ih e he (h e he)]

/-- What is left after stripping has no reserved key. -/
theorem unreserved_stripped (v : Value) : v.stripped.Unreserved := by
  induction v with
  | primitive p => exact .primitive p
  | function => exact .function
  | list items ih =>
    rw [stripped, strippedItems_eq_map]
    exact .list (List.forall_mem_map.2 ih)
  | dict entries ih =>
    rw [stripped]
    -- An entry that is left has another key, and its value is stripped itself.
    refine .dict (fun e he => (mem_strippedEntries.1 he).1) fun e he => ?_
    obtain ⟨-, v, hv, hw⟩ := mem_strippedEntries.1 he
    rw [hw]
    exact ih _ hv

/-- What may travel may still travel when it is stripped. -/
theorem IsWire.stripped {v : Value} (h : v.IsWire) : v.stripped.IsWire := by
  induction v with
  | primitive p => exact h
  | function => exact h
  | list items ih =>
    rw [Value.stripped, strippedItems_eq_map]
    exact .list (List.forall_mem_map.2 fun v hv => ih v hv (isWire_list_iff.1 h v hv))
  | dict entries ih =>
    rw [Value.stripped]
    refine .dict fun e he => ?_
    obtain ⟨-, v, hv, hw⟩ := mem_strippedEntries.1 he
    rw [hw]
    exact ih _ hv (isWire_dict_iff.1 h _ hv)

/-- What may travel travels as it is once it is stripped. -/
theorem IsWire.portable_stripped {v : Value} (h : v.IsWire) : v.stripped.Portable :=
  ⟨h.stripped, unreserved_stripped v⟩

end Value

end Wamp
