import Wamp.Message.Kind
import Wamp.Schema.Issue
import Wamp.Uri.Basic
import Wamp.Value.Wire

/-!
# Schemas

A schema reads a value as a datum of its domain or reports every issue that it has with the value.
The parts of a value are read independently of each other, so that no issue hides another; only a
value inside a payload is refused as a whole.
-/

namespace Wamp

/-- What a schema makes of a value. -/
abbrev Checked (α : Type _) := Except (List Issue) α

namespace Checked

variable {α β : Type _}

/-- A single issue with the value itself. -/
def refuse (defect : Defect) : Checked α := .error [⟨[], defect⟩]

/-- The result of reading a part, seen from the value that the part belongs to. -/
def below (step : PathStep) : Checked α → Checked α
  | .ok a => .ok a
  | .error issues => .error (issues.map (·.below step))

/-- Two results together, with the issues of both. -/
def and : Checked α → Checked β → Checked (α × β)
  | .ok a, .ok b => .ok (a, b)
  | .ok _, .error issues => .error issues
  | .error issues, .ok _ => .error issues
  | .error issues, .error more => .error (issues ++ more)

/-- Two results are there together exactly when each of them is. -/
theorem and_eq_ok_iff {x : Checked α} {y : Checked β} {a : α} {b : β} :
    x.and y = .ok (a, b) ↔ x = .ok a ∧ y = .ok b := by
  cases x <;> cases y <;> simp [Checked.and]

/-- A part has a result exactly when it has it by itself. -/
theorem below_eq_ok_iff {step : PathStep} {x : Checked α} {a : α} :
    x.below step = .ok a ↔ x = .ok a := by
  cases x <;> simp [below]

/-- The result, if there are no issues. -/
def result? : Checked α → Option α
  | .ok a => some a
  | .error _ => none

end Checked

namespace Schema

/-- A value that may travel. -/
def value (v : Value) : Checked Value :=
  match v.wire? with
  | some w => .ok w
  | none => .refuse .noAlternative

/-- The elements of a list from a position on. -/
def elements (position : Nat) : List Value → Checked (List Value)
  | [] => .ok []
  | v :: rest =>
    (((value v).below (.index position)).and (elements (position + 1) rest)).map
      fun (w, ws) => w :: ws

/-- A list of values that may travel. -/
def list : Value → Checked (List Value)
  | .list items => elements 0 items
  | v => .refuse (.wrongType .array v.typeName)

/-- The entries of a dictionary, without the reserved one. -/
def entries : List (String × Value) → Checked Dict
  | [] => .ok []
  | (key, v) :: rest =>
    (((value v).below (.key key)).and (entries rest)).map
      fun (w, ws) => if key = reservedKey then ws else (key, w) :: ws

/-- A dictionary that is read by its entries. -/
def object {α : Type _} (read : Dict → Checked α) : Value → Checked α
  | .dict d => if Dict.isPromise d then .refuse (.wrongType .object .promise) else read d
  | v => .refuse (.wrongType .object v.typeName)

/-- A dictionary of values that may travel. -/
def dict : Value → Checked Dict := object entries

/-- A URI under the default policy. -/
def uri : Value → Checked String
  | .string s => if Uri.isUri .default s then .ok s else .refuse .invalidUri
  | _ => .refuse .invalidUri

/-- The code of a message kind. -/
def messageKind : Value → Checked MessageKind
  | .number n =>
    match MessageKind.ofCode? n with
    | some kind => .ok kind
    | none => .refuse .unknownMessageType
  | _ => .refuse .unknownMessageType

/-- The greatest id. -/
def maxId : Int := Nat.pow 2 53

/-- What keeps a number from being an id. -/
def idDefects (n : Number) : List Defect :=
  (if n.toInt?.isNone then [.notInteger] else [])
    ++ (if n.isBelow 0 then [.belowLeast 0] else [])
    ++ (if n.isAbove maxId then [.aboveGreatest maxId] else [])

/-- An id: an integer from zero up to `2 ^ 53`. -/
def id : Value → Checked Number
  | .number .nan => .refuse (.wrongType .number .nan)
  | .number n =>
    match idDefects n with
    | [] => .ok n
    | defects => .error (defects.map (⟨[], ·⟩))
  | v => .refuse (.wrongType .number v.typeName)

/-- The code of one given kind. -/
def literal (kind : MessageKind) : Value → Checked Unit
  | .number n => if n = .int kind.code then .ok () else .refuse (.wrongLiteral kind.code)
  | _ => .refuse (.wrongLiteral kind.code)

/-- One of the given words. -/
def word (words : List String) : Value → Checked String
  | .string s => if s ∈ words then .ok s else .refuse (.unknownWord words s)
  | v => .refuse (.noWord words v.typeName)

/-- A list of three elements, each under a schema of its own. Elements beyond the third are one
issue, which comes before those of the first three. -/
def triple {α β γ : Type _} (first : Value → Checked α) (second : Value → Checked β)
    (third : Value → Checked γ) : Value → Checked (α × β × γ)
  | .list (a :: b :: c :: rest) =>
    let parts := ((first a).below (.index 0)).and
      (((second b).below (.index 1)).and ((third c).below (.index 2)))
    if rest.isEmpty then parts
    else ((Checked.refuse (.tooManyElements 3) : Checked Unit).and parts).map (·.2)
  | .list _ => .refuse (.tooFewElements 3)
  | v => .refuse (.wrongType .array v.typeName)

/-- A field that may be left out or left without a value. -/
def optional {α : Type _} (schema : Value → Checked α) : Option Value → Checked (Field α)
  | none => .ok .absent
  | some .undefined => .ok .undefined
  | some v => (schema v).map .given

end Schema

end Wamp
