/-!
# Ordered tables

A table is a list of pairs with distinct keys, in the order in which the keys were first put in.
Putting a value under a key that is there replaces the value and keeps the place; erasing a key and
putting it in again moves it to the end.
-/

namespace Wamp

/-- Pairs of a key and a value, in order of first insertion. -/
abbrev Assoc (κ ν : Type _) := List (κ × ν)

namespace Assoc

variable {κ ν : Type _} [DecidableEq κ]

/-- The value under a key. -/
def get? (key : κ) : Assoc κ ν → Option ν
  | [] => none
  | (k, v) :: rest => if k = key then some v else get? key rest

/-- Puts a value under a key. -/
def put (key : κ) (value : ν) : Assoc κ ν → Assoc κ ν
  | [] => [(key, value)]
  | (k, v) :: rest => if k = key then (key, value) :: rest else (k, v) :: put key value rest

/-- Removes a key. -/
def erase (key : κ) : Assoc κ ν → Assoc κ ν
  | [] => []
  | (k, v) :: rest => if k = key then erase key rest else (k, v) :: erase key rest

/-- The keys in order. -/
def keys (table : Assoc κ ν) : List κ := table.map (·.1)

@[simp]
theorem get?_nil (key : κ) : get? key ([] : Assoc κ ν) = none := rfl

/-- A value that was put in is the one that is found under its key. -/
@[simp]
theorem get?_put_self (key : κ) (value : ν) (table : Assoc κ ν) :
    get? key (put key value table) = some value := by
  induction table with
  | nil => simp [put, get?]
  | cons entry rest ih => by_cases h : entry.1 = key <;> simp [put, get?, h, ih]

/-- Putting a value in changes nothing about other keys. -/
theorem get?_put_of_ne {key other : κ} (h : key ≠ other) (value : ν) (table : Assoc κ ν) :
    get? other (put key value table) = get? other table := by
  induction table with
  | nil => simp [put, get?, h]
  | cons entry rest ih =>
    by_cases h' : entry.1 = key
    · simp [put, get?, h', h]
    · simp [put, get?, h', ih]

/-- An erased key is not found. -/
@[simp]
theorem get?_erase_self (key : κ) (table : Assoc κ ν) : get? key (erase key table) = none := by
  induction table with
  | nil => rfl
  | cons entry rest ih => by_cases h : entry.1 = key <;> simp [erase, get?, h, ih]

/-- Erasing a key changes nothing about other keys. -/
theorem get?_erase_of_ne {key other : κ} (h : key ≠ other) (table : Assoc κ ν) :
    get? other (erase key table) = get? other table := by
  induction table with
  | nil => rfl
  | cons entry rest ih =>
    by_cases h' : entry.1 = key
    · simp [erase, get?, h', h, ih]
    · simp [erase, get?, h', ih]

end Assoc

end Wamp
