import Mathlib.Data.List.Basic
import Wamp.Proofs.Number.Text
import Wamp.Proofs.Value.Wire
import Wamp.Value.Json

/-!
# JSON texts at the front of a text

Which value a JSON text stands for, and where in a longer text it ends, can be told from the text
alone, as long as the numbers in it are integers that are written with all their digits. Such values
are called plain here. `Json.Legible` says this of one value, `Json.intercalate_append_inj` carries
it over to what is listed with a separator, and `Value.Plain.legible` puts both together by
induction on values. The first character of a JSON text tells the type of the value
(`Value.Plain.exists_json_eq_cons`); whatever the value, it is one of those that JSON texts begin
with (`Value.exists_json_eq_cons`).
-/

namespace Wamp

open Number (Stops stops_nil stops_cons_iff)

namespace Json

/-! ## Strings -/

/-- The number that a hexadecimal digit in lower case stands for. -/
def hexValue (c : Char) : Nat :=
  if c.isDigit then c.toNat - '0'.toNat else c.toNat - 'a'.toNat + 10

/-- The character at the front of the inside of a JSON string, and what follows it. -/
def unescape? : List Char → Option (Char × List Char)
  | '\\' :: 'b' :: rest => some ('\x08', rest)
  | '\\' :: 't' :: rest => some ('\t', rest)
  | '\\' :: 'n' :: rest => some ('\n', rest)
  | '\\' :: 'f' :: rest => some ('\x0c', rest)
  | '\\' :: 'r' :: rest => some ('\r', rest)
  | '\\' :: 'u' :: '0' :: '0' :: high :: low :: rest =>
    some (Char.ofNat (16 * hexValue high + hexValue low), rest)
  | '\\' :: c :: rest => some (c, rest)
  | c :: rest => some (c, rest)
  | [] => none

/-- A hexadecimal digit stands for the number that it is written for. -/
theorem hexValue_hexDigit (n : Nat) : hexValue (hexDigit n) = n % 16 := by
  have hdigits : ∀ m < 16, hexValue (Nat.digitChar m) = m := by decide
  exact hdigits (n % 16) (Nat.mod_lt n (by decide))

/-- A character that stands for itself is read as itself. -/
theorem unescape?_cons {c : Char} (h : c ≠ '\\') (rest : List Char) :
    unescape? (c :: rest) = some (c, rest) := by
  unfold unescape?
  split <;> simp_all

/-- A character is read back from the way in which it stands inside a string. -/
theorem unescape?_escape (c : Char) (rest : List Char) :
    unescape? (escape c ++ rest) = some (c, rest) := by
  unfold escape
  split
  · next h => rw [h]; rfl
  split
  · next h => rw [h]; rfl
  split
  · next h _ => exact unescape?_cons h rest
  split
  · next h => rw [h]; rfl
  split
  · next h => rw [h]; rfl
  split
  · next h => rw [h]; rfl
  split
  · next h => rw [h]; rfl
  split
  · next h => rw [h]; rfl
  · next hlow _ _ _ _ _ =>
    have hcode : 16 * hexValue (hexDigit (c.toNat / 16)) + hexValue (hexDigit c.toNat) =
        c.toNat := by
      rw [hexValue_hexDigit, hexValue_hexDigit]
      omega
    show some (Char.ofNat _, rest) = _
    rw [hcode, Char.ofNat_toNat]

/-- A character inside a string is read off the front of a text. -/
theorem escape_append_inj {c d : Char} {rest rest' : List Char}
    (h : escape c ++ rest = escape d ++ rest') : c = d ∧ rest = rest' := by
  have hread := unescape?_escape c rest
  rw [h, unescape?_escape] at hread
  exact ⟨(Prod.mk.inj (Option.some.inj hread)).1.symm, (Prod.mk.inj (Option.some.inj hread)).2.symm⟩

/-- Nothing inside a string is taken for its end. -/
theorem escape_append_ne_quote (c : Char) (rest rest' : List Char) :
    escape c ++ rest ≠ '"' :: rest' := by
  intro h
  have hread := unescape?_escape c rest
  rw [h, unescape?_cons (by decide)] at hread
  -- Only a quotation mark could be read here, and that one stands behind a backslash.
  obtain ⟨rfl, -⟩ := Prod.mk.inj (Option.some.inj hread)
  cases h

/-- The inside of a string is read off the front of a text that goes on with its end. -/
theorem flatMap_escape_append_inj {cs ds rest rest' : List Char}
    (h : cs.flatMap escape ++ '"' :: rest = ds.flatMap escape ++ '"' :: rest') :
    cs = ds ∧ rest = rest' := by
  induction cs generalizing ds with
  | nil =>
    cases ds with
    | nil => exact ⟨rfl, (List.cons.inj h).2⟩
    | cons d ds =>
      rw [List.flatMap_cons, List.append_assoc] at h
      exact absurd h.symm (escape_append_ne_quote _ _ _)
  | cons c cs ih =>
    cases ds with
    | nil =>
      rw [List.flatMap_cons, List.append_assoc] at h
      exact absurd h (escape_append_ne_quote _ _ _)
    | cons d ds =>
      rw [List.flatMap_cons, List.flatMap_cons, List.append_assoc, List.append_assoc] at h
      obtain ⟨rfl, htail⟩ := escape_append_inj h
      obtain ⟨rfl, hrest⟩ := ih htail
      exact ⟨rfl, hrest⟩

/-- A string is read off the front of a text. -/
theorem quote_append_inj {s t : String} {rest rest' : List Char}
    (h : quote s ++ rest = quote t ++ rest') : s = t ∧ rest = rest' := by
  have hinside :
      s.toList.flatMap escape ++ '"' :: rest = t.toList.flatMap escape ++ '"' :: rest' := by
    simpa [quote] using h
  obtain ⟨hchars, hrest⟩ := flatMap_escape_append_inj hinside
  exact ⟨String.toList_injective hchars, hrest⟩

/-! ## Sequences -/

section

variable {α : Type _} {P : α → Prop} {text : α → List Char} {separator rest rest' : List Char}

/-- What is written of `a` is told from what is written of anything with the property, also where
more follows that does not go on with a digit; and so is what follows. -/
def Legible (P : α → Prop) (text : α → List Char) (a : α) : Prop :=
  ∀ ⦃b⦄, P b → ∀ ⦃rest rest'⦄, Stops rest → Stops rest' → text a ++ rest = text b ++ rest' →
    a = b ∧ rest = rest'

/-- A text that ends a sequence: it does not go on with a digit, and nothing of what may be listed
stands at its front, neither by itself nor behind a separator. -/
structure Closes (text : α → List Char) (separator rest : List Char) : Prop where
  stops : Stops rest
  item : ∀ a more, text a ++ more ≠ rest
  next : ∀ a more, separator ++ (text a ++ more) ≠ rest

/-- What is listed is its first text and then every other one behind a separator. -/
theorem intercalate_cons (separator first : List Char) (texts : List (List Char)) :
    separator.intercalate (first :: texts) = first ++ texts.flatMap (separator ++ ·) := by
  induction texts generalizing first with
  | nil => simp
  | cons second texts ih =>
    rw [List.intercalate_cons_cons, ih, List.flatMap_cons, List.append_assoc, List.append_assoc]

/-- What comes behind the first text of a sequence does not go on with a digit. -/
theorem Closes.stops_flatMap (h : Closes text separator rest)
    (hseparator : ∀ more, Stops (separator ++ more)) (as : List α) :
    Stops ((as.map text).flatMap (separator ++ ·) ++ rest) := by
  cases as with
  | nil => exact h.stops
  | cons a as =>
    rw [List.map_cons, List.flatMap_cons, List.append_assoc, List.append_assoc]
    exact hseparator _

/-- What comes behind the first text of a sequence is read off the front of a text. -/
theorem flatMap_append_inj {as bs : List α} (hseparator : ∀ more, Stops (separator ++ more))
    (has : ∀ a ∈ as, Legible P text a) (hbs : ∀ b ∈ bs, P b) (hrest : Closes text separator rest)
    (hrest' : Closes text separator rest')
    (h : (as.map text).flatMap (separator ++ ·) ++ rest =
      (bs.map text).flatMap (separator ++ ·) ++ rest') :
    as = bs ∧ rest = rest' := by
  induction as generalizing bs with
  | nil =>
    cases bs with
    | nil => exact ⟨rfl, h⟩
    | cons b bs =>
      rw [List.map_cons, List.flatMap_cons, List.append_assoc, List.append_assoc] at h
      exact absurd h.symm (hrest.next _ _)
  | cons a as ih =>
    rw [List.map_cons, List.flatMap_cons, List.append_assoc, List.append_assoc] at h
    cases bs with
    | nil => exact absurd h (hrest'.next _ _)
    | cons b bs =>
      rw [List.map_cons, List.flatMap_cons, List.append_assoc, List.append_assoc] at h
      rw [List.forall_mem_cons] at has hbs
      obtain ⟨rfl, htail⟩ := has.1 hbs.1 (hrest.stops_flatMap hseparator as)
        (hrest'.stops_flatMap hseparator bs) (List.append_cancel_left h)
      obtain ⟨rfl, hrests⟩ := ih has.2 hbs.2 htail
      exact ⟨rfl, hrests⟩

/-- A sequence is read off the front of a text that ends it. -/
theorem intercalate_append_inj {as bs : List α} (hseparator : ∀ more, Stops (separator ++ more))
    (has : ∀ a ∈ as, Legible P text a) (hbs : ∀ b ∈ bs, P b) (hrest : Closes text separator rest)
    (hrest' : Closes text separator rest')
    (h : separator.intercalate (as.map text) ++ rest =
      separator.intercalate (bs.map text) ++ rest') :
    as = bs ∧ rest = rest' := by
  cases as with
  | nil =>
    cases bs with
    | nil => exact ⟨rfl, h⟩
    | cons b bs =>
      rw [List.map_cons, intercalate_cons, List.append_assoc] at h
      exact absurd h.symm (hrest.item _ _)
  | cons a as =>
    rw [List.map_cons, intercalate_cons, List.append_assoc] at h
    cases bs with
    | nil => exact absurd h (hrest'.item _ _)
    | cons b bs =>
      rw [List.map_cons, intercalate_cons, List.append_assoc] at h
      rw [List.forall_mem_cons] at has hbs
      obtain ⟨rfl, htail⟩ := has.1 hbs.1 (hrest.stops_flatMap hseparator as)
        (hrest'.stops_flatMap hseparator bs) h
      obtain ⟨rfl, hrests⟩ := flatMap_append_inj hseparator has.2 hbs.2 hrest hrest' htail
      exact ⟨rfl, hrests⟩

end

/-! ## First characters -/

/-- The type of the values whose JSON texts begin with a character. -/
def typeOf? (c : Char) : Option TypeName :=
  if c.isDigit || c = '-' then some .number
  else match c with
    | 'n' => some .null
    | 't' | 'f' => some .boolean
    | '"' => some .string
    | '[' => some .array
    | '\x7b' => some .object
    | _ => none

end Json

/-! ## Texts with commas between them -/

/-- The characters of texts that are separated by a comma and a space. -/
theorem toList_commaSeparated (texts : List String) :
    (commaSeparated texts).toList = [',', ' '].intercalate (texts.map String.toList) :=
  String.toList_intercalate

/-- The characters of a text and of others that follow it, each behind a comma and a space. -/
theorem toList_commaSeparated_cons (first : String) (texts : List String) :
    (commaSeparated (first :: texts)).toList =
      first.toList ++ (texts.map String.toList).flatMap ([',', ' '] ++ ·) := by
  rw [toList_commaSeparated, List.map_cons, Json.intercalate_cons]

namespace Value

open Json (typeOf? Legible Closes)

/-! ## JSON texts of values -/

/-- The JSON text of a value begins with a character that tells a type. -/
theorem exists_json_eq_cons (v : Value) :
    ∃ c rest, v.json = c :: rest ∧ (typeOf? c).isSome = true := by
  cases v with
  | primitive p =>
    cases p with
    | undefined | null | bigint | symbol => exact ⟨'n', _, rfl, rfl⟩
    | bool b => cases b <;> exact ⟨_, _, rfl, rfl⟩
    | number n =>
      obtain ⟨c, rest, hn, hc⟩ := n.exists_json_eq_cons
      refine ⟨c, rest, hn, ?_⟩
      rcases hc with hc | rfl | rfl
      · simp [typeOf?, hc]
      · rfl
      · rfl
    | string s => exact ⟨'"', _, rfl, rfl⟩
  | function => exact ⟨'n', _, rfl, rfl⟩
  | list items => exact ⟨'[', _, rfl, rfl⟩
  | dict entries => exact ⟨'\x7b', _, rfl, rfl⟩

/-- No JSON text begins with a character that tells no type. -/
theorem json_append_ne_cons {c : Char} (h : typeOf? c = none) (v : Value) (more rest : List Char) :
    v.json ++ more ≠ c :: rest := by
  obtain ⟨d, tail, hv, hd⟩ := v.exists_json_eq_cons
  rw [hv, List.cons_append]
  intro heq
  obtain ⟨rfl, -⟩ := List.cons.inj heq
  rw [h] at hd
  cases hd

/-- The characters of the JSON text of a value that has one. -/
theorem toList_quoted {v : Value} (h : v.hasJson = true) : v.quoted.toList = v.json := by
  rw [quoted, if_pos h, String.toList_ofList]

/-- The characters of JSON texts that are separated by a comma and a space. -/
theorem toList_commaSeparated_quoted {items : List Value} (h : ∀ v ∈ items, v.hasJson = true) :
    (commaSeparated (items.map quoted)).toList = [',', ' '].intercalate (items.map json) := by
  rw [toList_commaSeparated, List.map_map]
  exact congrArg _ (List.map_congr_left fun v hv => toList_quoted (h v hv))

/-! ## Plain values -/

/-- A value whose numbers, at any depth, are integers that are written with all their digits: those
of at most `2 ^ 53` in magnitude, negative zero not among them. -/
inductive Plain : Value → Prop
  | null : Plain .null
  | bool (b : Bool) : Plain (.bool b)
  | int {i : Int} (h : i.natAbs ≤ Nat.pow 2 53) : Plain (.number (.int i))
  | string (s : String) : Plain (.string s)
  | list {items : List Value} (h : ∀ v ∈ items, Plain v) : Plain (.list items)
  | dict {entries : Dict} (h : ∀ e ∈ entries, Plain e.2) : Plain (.dict entries)

/-- A list is plain exactly when all its items are. -/
@[simp]
theorem plain_list_iff {items : List Value} : (Value.list items).Plain ↔ ∀ v ∈ items, v.Plain :=
  ⟨fun | .list h => h, .list⟩

/-- A dictionary is plain exactly when all its values are. -/
@[simp]
theorem plain_dict_iff {entries : Dict} : (Value.dict entries).Plain ↔ ∀ e ∈ entries, e.2.Plain :=
  ⟨fun | .dict h => h, .dict⟩

/-- A plain value may travel. -/
theorem Plain.isWire {v : Value} (h : v.Plain) : v.IsWire := by
  induction h with
  | null => exact .null
  | bool b => exact .bool b
  | int h => exact .number nofun
  | string s => exact .string s
  | list _ ih => exact .list ih
  | dict _ ih => exact .dict ih

/-- JSON has a word for what may travel. -/
theorem IsWire.hasJson {v : Value} (h : v.IsWire) : v.hasJson = true := by
  cases h with
  | null | bool | number | string | list | dict => rfl

/-- The JSON text of an integer of at most `2 ^ 53` in magnitude has all its digits. -/
theorem json_int {i : Int} (h : i.natAbs ≤ Nat.pow 2 53) :
    (Value.number (.int i)).json = Number.intText i := by
  have hexact : i.natAbs ≤ Number.maxExact := h
  simp [Value.json, Primitive.json, Number.json, Number.finiteText?, hexact]

/-- The type of a value as its JSON text shows it, which takes every dictionary for an object. -/
def jsonType : Value → TypeName
  | .primitive p => p.typeName
  | .function => .function
  | .list _ => .array
  | .dict _ => .object

/-- The first character of the JSON text of a plain value tells its type. -/
theorem Plain.exists_json_eq_cons {v : Value} (h : v.Plain) :
    ∃ c rest, v.json = c :: rest ∧ typeOf? c = some v.jsonType := by
  cases h with
  | null => exact ⟨'n', _, rfl, rfl⟩
  | bool b => cases b <;> exact ⟨_, _, rfl, rfl⟩
  | @int i h =>
    obtain ⟨c, rest, hi, hc⟩ := Number.exists_intText_eq_cons i
    refine ⟨c, rest, (json_int h).trans hi, ?_⟩
    rcases hc with hc | rfl
    · simp [typeOf?, hc, jsonType, Primitive.typeName]
    · rfl
  | string s => exact ⟨'"', _, rfl, rfl⟩
  | list h => exact ⟨'[', _, rfl, rfl⟩
  | dict h => exact ⟨'\x7b', _, rfl, rfl⟩

/-- Plain values with texts at the front of one text are of one type. -/
theorem Plain.jsonType_eq {v w : Value} (hv : v.Plain) (hw : w.Plain) {rest rest' : List Char}
    (h : v.json ++ rest = w.json ++ rest') : v.jsonType = w.jsonType := by
  obtain ⟨c, cs, hvc, hvtype⟩ := hv.exists_json_eq_cons
  obtain ⟨d, ds, hwd, hwtype⟩ := hw.exists_json_eq_cons
  rw [hvc, hwd, List.cons_append, List.cons_append] at h
  obtain ⟨rfl, -⟩ := List.cons.inj h
  exact Option.some.inj (hvtype.symm.trans hwtype)

/-- The JSON texts of items are those of each. -/
theorem jsonItems_eq_map (items : List Value) : jsonItems items = items.map json := by
  induction items with
  | nil => rfl
  | cons v vs ih => rw [jsonItems, ih, List.map_cons]

/-- The JSON text of an entry of a dictionary. -/
def jsonEntry (e : String × Value) : List Char := Json.quote e.1 ++ ':' :: e.2.json

/-- The JSON texts of entries are those of each, if JSON has a word for all of their values. -/
theorem jsonEntries_eq_map {d : Dict} (h : ∀ e ∈ d, e.2.hasJson = true) :
    jsonEntries d = d.map jsonEntry := by
  induction d with
  | nil => rfl
  | cons e rest ih =>
    rw [List.forall_mem_cons] at h
    rw [jsonEntries, if_pos h.1, ih h.2, List.map_cons, jsonEntry]

/-- An entry is read off the front of a text if its value is. -/
theorem legible_jsonEntry {e : String × Value} (h : Legible Plain json e.2) :
    Legible (fun e : String × Value => e.2.Plain) jsonEntry e := by
  intro e' he' rest rest' hrest hrest' heq
  rw [jsonEntry, jsonEntry, List.append_assoc, List.append_assoc] at heq
  obtain ⟨hkey, hvalue⟩ := Json.quote_append_inj heq
  obtain ⟨hvalue, hrests⟩ := h he' hrest hrest' (List.cons.inj hvalue).2
  exact ⟨Prod.ext hkey hvalue, hrests⟩

/-- A bracket ends a list. -/
theorem closes_list (rest : List Char) : Closes json [','] (']' :: rest) where
  stops := stops_cons_iff.mpr rfl
  item v more := json_append_ne_cons rfl v more rest
  next v more := by simp

/-- A brace ends a dictionary. -/
theorem closes_dict (rest : List Char) : Closes jsonEntry [','] ('\x7d' :: rest) where
  stops := stops_cons_iff.mpr rfl
  item e more := by simp [jsonEntry, Json.quote]
  next e more := by simp

/-- A primitive that is plain is read off the front of a text. -/
theorem Plain.legible_primitive {p : Primitive} (h : (Value.primitive p).Plain) :
    Legible Plain json (.primitive p) := by
  intro w hw rest rest' hrest hrest' heq
  have htype := h.jsonType_eq hw heq
  cases h with
  | null =>
    cases hw with
    | null => exact ⟨rfl, List.append_cancel_left heq⟩
    | bool | int | string | list | dict => cases htype
  | bool b =>
    cases hw with
    | bool b' =>
      cases b <;> cases b'
      · exact ⟨rfl, List.append_cancel_left heq⟩
      · cases heq
      · cases heq
      · exact ⟨rfl, List.append_cancel_left heq⟩
    | null | int | string | list | dict => cases htype
  | @int i hi =>
    cases hw with
    | @int j hj =>
      rw [json_int hi, json_int hj] at heq
      obtain ⟨rfl, hrests⟩ := Number.intText_append_inj hrest hrest' heq
      exact ⟨rfl, hrests⟩
    | null | bool | string | list | dict => cases htype
  | string s =>
    cases hw with
    | string t =>
      obtain ⟨rfl, hrests⟩ := Json.quote_append_inj heq
      exact ⟨rfl, hrests⟩
    | null | bool | int | list | dict => cases htype

/-- A plain value is read off the front of a text. -/
theorem Plain.legible {v : Value} (h : v.Plain) : Legible Plain json v := by
  have hcomma (more : List Char) : Stops ([','] ++ more) := stops_cons_iff.mpr rfl
  induction v with
  | primitive p => exact h.legible_primitive
  | function => cases h
  | list items ih =>
    intro w hw rest rest' hrest hrest' heq
    have htype := h.jsonType_eq hw heq
    cases hw with
    | @list items' hw =>
      have hitems := plain_list_iff.mp h
      simp only [json, jsonItems_eq_map, List.cons_append, List.append_assoc, List.nil_append,
        List.cons.injEq, true_and] at heq
      obtain ⟨rfl, hrests⟩ := Json.intercalate_append_inj hcomma
        (fun v hv => ih v hv (hitems v hv)) hw (closes_list rest) (closes_list rest') heq
      exact ⟨rfl, (List.cons.inj hrests).2⟩
    | null | bool | int | string | dict => cases htype
  | dict entries ih =>
    intro w hw rest rest' hrest hrest' heq
    have htype := h.jsonType_eq hw heq
    cases hw with
    | @dict entries' hw =>
      have hentries := plain_dict_iff.mp h
      simp only [json, jsonEntries_eq_map fun e he => (hentries e he).isWire.hasJson,
        jsonEntries_eq_map fun e he => (hw e he).isWire.hasJson, List.cons_append,
        List.append_assoc, List.nil_append, List.cons.injEq, true_and] at heq
      obtain ⟨rfl, hrests⟩ := Json.intercalate_append_inj hcomma
        (fun e he => legible_jsonEntry (ih e he (hentries e he))) hw (closes_dict rest)
        (closes_dict rest') heq
      exact ⟨rfl, (List.cons.inj hrests).2⟩
    | null | bool | int | string | list => cases htype

/-- Plain values with one JSON text are one value. -/
theorem Plain.eq_of_json_eq {v w : Value} (hv : v.Plain) (hw : w.Plain) (h : v.json = w.json) :
    v = w :=
  (hv.legible hw stops_nil stops_nil (by rw [h])).1

end Value

end Wamp
