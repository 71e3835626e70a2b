import Wamp.Number.Text
import Wamp.Value.Basic

/-!
# The order of a dictionary

A dictionary lists its index keys first, by number, and then its other keys in the order in which
they were first put in. An index key is a natural up to `4294967294` in its canonical decimal form,
so that `"7"` is one and `"07"`, `"-1"` and `"1.5"` are not. Putting a value under a key that is
there replaces the value and keeps the place.
-/

namespace Wamp.Dict

/-- The largest index. -/
def maxIndex : Nat := 4294967294

/-- The natural that a string of digits stands for. -/
def digitsValue (digits : List Char) : Nat :=
  digits.foldl (fun n c => n * 10 + (c.toNat - '0'.toNat)) 0

/-- The index that a key is. -/
def index? (key : String) : Option Nat :=
  let n := digitsValue key.toList
  if n ≤ maxIndex ∧ key.toList = Number.numeral n then some n else none

/-- Puts a value under the key that is the given index. -/
def putIndex (index : Nat) (key : String) (value : Value) : Dict → Dict
  | [] => [(key, value)]
  | (k, v) :: rest =>
    match index? k with
    | none => (key, value) :: (k, v) :: rest
    | some i =>
      if i = index then (key, value) :: rest
      else if index < i then (key, value) :: (k, v) :: rest
      else (k, v) :: putIndex index key value rest

/-- Puts a value under a key. -/
def put (d : Dict) (key : String) (value : Value) : Dict :=
  match index? key with
  | some index => putIndex index key value d
  | none => Assoc.put key value d

/-- The dictionary that puts the pairs in one after the other. -/
def ofPairs (pairs : List (String × Value)) : Dict :=
  pairs.foldl (fun d (key, value) => d.put key value) []

end Wamp.Dict
