import Mathlib.Data.List.Nodup
import Wamp.Assoc

/-!
# Tables with distinct keys

Putting in and erasing keep the keys of a table distinct, and in a table with distinct keys a value
is found under a key exactly when the table holds that pair. What a lookup returns can then be read
off the list of pairs.
-/

namespace Wamp

namespace Assoc

variable {κ ν : Type _}

@[simp]
theorem keys_nil : keys ([] : Assoc κ ν) = [] := rfl

@[simp]
theorem keys_cons (entry : κ × ν) (rest : Assoc κ ν) :
    keys (entry :: rest : Assoc κ ν) = entry.1 :: keys rest := rfl

variable [DecidableEq κ]

/-- A value that is found stands in the table under its key. -/
theorem mem_of_get? {key : κ} {value : ν} {table : Assoc κ ν} (h : get? key table = some value) :
    (key, value) ∈ table := by
  induction table with
  | nil => cases h
  | cons entry rest ih =>
    unfold get? at h
    split at h
    · next hk =>
      cases h
      rw [← hk]
      exact List.mem_cons_self
    · exact List.mem_cons_of_mem entry (ih h)

/-- Nothing is found under a key that a table does not have. -/
theorem get?_of_notMem {key : κ} {table : Assoc κ ν} (h : key ∉ keys table) :
    get? key table = none :=
  Option.eq_none_iff_forall_ne_some.mpr fun _ hvalue => h (List.mem_map_of_mem (mem_of_get? hvalue))

/-- What is found after a put is what was put in or what was found before. -/
theorem get?_of_get?_put {key other : κ} {value found : ν} {table : Assoc κ ν}
    (h : get? other (put key value table) = some found) :
    found = value ∨ get? other table = some found := by
  by_cases heq : key = other
  · rw [heq, get?_put_self] at h
    exact .inl (Option.some.inj h).symm
  · rw [get?_put_of_ne heq] at h
    exact .inr h

/-- What is found after a key was erased was found before. -/
theorem get?_of_get?_erase {key other : κ} {found : ν} {table : Assoc κ ν}
    (h : get? other (erase key table) = some found) : get? other table = some found := by
  by_cases heq : key = other
  · rw [heq, get?_erase_self] at h
    cases h
  · rwa [get?_erase_of_ne heq] at h

/-- In a table that is put together, the first part decides about the keys that it has. -/
theorem get?_append (key : κ) (table rest : Assoc κ ν) :
    get? key (table ++ rest : Assoc κ ν) = (get? key table).or (get? key rest) := by
  induction table with
  | nil => exact Option.none_or.symm
  | cons entry table ih => by_cases h : entry.1 = key <;> simp [get?, h, ih]

/-- When keys are distinct, a value is found exactly under the key that it stands with. -/
theorem get?_eq_some_iff {key : κ} {value : ν} {table : Assoc κ ν} (hk : (keys table).Nodup) :
    get? key table = some value ↔ (key, value) ∈ table := by
  refine ⟨mem_of_get?, fun h => ?_⟩
  induction table with
  | nil => cases h
  | cons entry rest ih =>
    rw [keys_cons, List.nodup_cons] at hk
    obtain ⟨hfresh, hrest⟩ := hk
    rcases List.mem_cons.mp h with rfl | h
    · simp [get?]
    -- The pair stands further back, so the head has another key.
    · have hne : entry.1 ≠ key := by
        intro heq
        rw [heq] at hfresh
        exact hfresh (List.mem_map_of_mem h)
      simp [get?, hne, ih hrest h]

/-- A pair that stands in a table after a put is the one put in or was there before. -/
theorem mem_of_mem_put {key : κ} {value : ν} {table : Assoc κ ν} {entry : κ × ν}
    (h : entry ∈ put key value table) : entry = (key, value) ∨ entry ∈ table := by
  induction table with
  | nil => exact .inl (List.mem_singleton.mp h)
  | cons head rest ih =>
    unfold put at h
    split at h
    · exact (List.mem_cons.mp h).imp_right (List.mem_cons_of_mem head)
    · rcases List.mem_cons.mp h with rfl | h
      · exact .inr List.mem_cons_self
      · exact (ih h).imp_right (List.mem_cons_of_mem head)

/-- A put leaves the keys as they are, or adds the key at the end when it is new. -/
theorem mem_keys_put {key other : κ} {value : ν} {table : Assoc κ ν} :
    other ∈ keys (put key value table) ↔ other = key ∨ other ∈ keys table := by
  induction table with
  | nil => simp [put]
  | cons entry rest ih =>
    unfold put
    split
    · next h =>
      rw [keys_cons, keys_cons, List.mem_cons, List.mem_cons, h]
      tauto
    · rw [keys_cons, keys_cons, List.mem_cons, List.mem_cons, ih]
      tauto

/-- A put keeps keys distinct. -/
theorem nodup_keys_put {key : κ} {value : ν} {table : Assoc κ ν} (hk : (keys table).Nodup) :
    (keys (put key value table)).Nodup := by
  induction table with
  | nil => simp [put]
  | cons entry rest ih =>
    obtain ⟨hfresh, hrest⟩ := List.nodup_cons.mp hk
    unfold put
    split
    -- A key that is there keeps its place.
    · next h =>
      rw [keys_cons, ← h]
      exact hk
    -- Otherwise the head differs from the key that is put in and from those of the rest.
    · next h =>
      rw [keys_cons, List.nodup_cons, mem_keys_put, not_or]
      exact ⟨⟨h, hfresh⟩, ih hrest⟩

/-- In a table without the key, a put adds the pair at the end. -/
theorem put_of_notMem {key : κ} {table : Assoc κ ν} (value : ν) (h : key ∉ keys table) :
    put key value table = table ++ [(key, value)] := by
  induction table with
  | nil => rfl
  | cons entry rest ih =>
    rw [keys_cons, List.mem_cons, not_or] at h
    rw [put, if_neg (Ne.symm h.1), ih h.2, List.cons_append]

/-- In a table with distinct keys that has the key, a put replaces its value in place. -/
theorem put_of_mem {key : κ} {table : Assoc κ ν} (value : ν) (hk : (keys table).Nodup)
    (h : key ∈ keys table) :
    put key value table = table.map fun pair => if pair.1 = key then (key, value) else pair := by
  induction table with
  | nil => cases h
  | cons entry rest ih =>
    obtain ⟨hfresh, hrest⟩ := List.nodup_cons.mp hk
    by_cases hentry : entry.1 = key
    -- The pair stands in front, and no other pair has its key.
    · have hkeep : rest.map (fun pair => if pair.1 = key then (key, value) else pair) = rest := by
        refine (List.map_congr_left fun pair hpair => if_neg ?_).trans (List.map_id rest)
        intro heq
        have hpairKey : pair.1 ∈ keys rest := List.mem_map_of_mem hpair
        rw [heq, ← hentry] at hpairKey
        exact hfresh hpairKey
      rw [put, if_pos hentry, List.map_cons, if_pos hentry, hkeep]
    · have hmem : key ∈ keys rest := (List.mem_cons.mp h).resolve_left (Ne.symm hentry)
      rw [put, if_neg hentry, List.map_cons, if_neg hentry, ih hrest hmem]

/-- A put leaves the keys of a table that has the key as they are. -/
theorem keys_put_of_mem {key : κ} {table : Assoc κ ν} (value : ν) (h : key ∈ keys table) :
    keys (put key value table) = keys table := by
  induction table with
  | nil => cases h
  | cons entry rest ih =>
    by_cases hentry : entry.1 = key
    · rw [put, if_pos hentry, keys_cons, keys_cons, hentry]
    · have hmem : key ∈ keys rest := (List.mem_cons.mp h).resolve_left (Ne.symm hentry)
      rw [put, if_neg hentry, keys_cons, keys_cons, ih hmem]

/-- Erasing a key leaves the pairs with other keys, in their order. -/
theorem erase_eq_filter (key : κ) (table : Assoc κ ν) :
    erase key table = table.filter (·.1 ≠ key) := by
  induction table with
  | nil => rfl
  | cons entry rest ih =>
    by_cases h : entry.1 = key
    · simp [erase, h, ih]
    · simp [erase, h, ih]

/-- Putting a value in leaves the pairs with other keys, in their order. -/
theorem filter_put (key : κ) (value : ν) (table : Assoc κ ν) :
    (put key value table).filter (·.1 ≠ key) = table.filter (·.1 ≠ key) := by
  induction table with
  | nil => simp [put]
  | cons entry rest ih =>
    by_cases h : entry.1 = key
    · simp [put, h]
    · simp [put, h] at ih ⊢
      exact ih

/-- Erasing a key takes away what was put in under it, and what was there before. -/
theorem erase_put (key : κ) (value : ν) (table : Assoc κ ν) :
    erase key (put key value table) = erase key table := by
  rw [erase_eq_filter, erase_eq_filter, filter_put]

/-- Erasing a key that a table does not have leaves the table. -/
theorem erase_of_notMem {key : κ} {table : Assoc κ ν} (h : key ∉ keys table) :
    erase key table = table := by
  rw [erase_eq_filter, List.filter_eq_self]
  intro pair hpair
  refine decide_eq_true fun heq => h ?_
  rw [← heq]
  exact List.mem_map_of_mem hpair

/-- Erasing takes keys away and leaves the others in their order. -/
theorem keys_erase (key : κ) (table : Assoc κ ν) :
    keys (erase key table) = (keys table).filter (· ≠ key) := by
  rw [erase_eq_filter, keys, keys, List.filter_map]
  rfl

/-- Erasing takes a key away and leaves the others. -/
theorem mem_keys_erase {key other : κ} {table : Assoc κ ν} :
    other ∈ keys (erase key table) ↔ other ∈ keys table ∧ other ≠ key := by
  rw [keys_erase, List.mem_filter, decide_eq_true_iff]

/-- Erasing keeps keys distinct. -/
theorem nodup_keys_erase {key : κ} {table : Assoc κ ν} (hk : (keys table).Nodup) :
    (keys (erase key table)).Nodup := by
  rw [keys_erase]
  exact hk.filter _

end Assoc

end Wamp
