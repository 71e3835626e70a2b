import Wamp.Value.Basic

/-!
# Values that travel

A message carries strings, numbers, truth values, null, lists and dictionaries of such values.
Infinite numbers count as numbers, what is not a number does not. Reading a value for the wire
checks all of it and drops the entry under the reserved key from every dictionary, after its value
has been checked as well.
-/

namespace Wamp

/-- The key that no dictionary read from the wire holds. -/
def reservedKey : String := "__proto__"

/-- Whether a primitive may travel. -/
def Primitive.isWire : Primitive → Bool
  | .null | .bool _ | .string _ => true
  | .number n => n != .nan
  | .undefined | .bigint | .symbol => false

mutual

/-- Reads a value for the wire. -/
def Value.wire? : Value → Option Value
  | .primitive p => if p.isWire then some (.primitive p) else none
  | .function => none
  | .list items => (Value.wireItems? items).map .list
  | .dict entries => (Value.wireEntries? entries).map .dict

/-- Reads every item of a list for the wire. -/
def Value.wireItems? : List Value → Option (List Value)
  | [] => some []
  | v :: vs =>
    match v.wire?, Value.wireItems? vs with
    | some w, some ws => some (w :: ws)
    | _, _ => none

/-- Reads every entry of a dictionary for the wire and drops the reserved one. -/
def Value.wireEntries? : List (String × Value) → Option (List (String × Value))
  | [] => some []
  | (key, v) :: rest =>
    match v.wire?, Value.wireEntries? rest with
    | some w, some ws => some (if key = reservedKey then ws else (key, w) :: ws)
    | _, _ => none

end

end Wamp
