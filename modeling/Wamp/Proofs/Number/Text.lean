import Mathlib.Data.List.DropRight
import Mathlib.Data.List.TakeWhile
import Wamp.Number.Text

/-!
# Numbers at the front of a text

An integer that is written with all its digits can be read off the front of a text, as long as what
follows does not go on with a digit (`Number.intText_append_inj`). Every number, whichever way it is
written, leaves a text that begins with a digit, a minus sign or the word null
(`Number.exists_json_eq_cons`). For a shortest decimal this says that the search never ends with
digits that are all zero, unless the number is too small for any double.
-/

namespace Wamp.Number

/-! ## Numerals -/

/-- A text that adds no digit to a numeral in front of it. -/
def Stops (rest : List Char) : Prop := ∀ c ∈ rest.head?, c.isDigit = false

/-- Nothing adds no digit. -/
@[simp]
theorem stops_nil : Stops [] := nofun

/-- Only the first character of a text can add a digit. -/
@[simp]
theorem stops_cons_iff {c : Char} {rest : List Char} :
    Stops (c :: rest) ↔ c.isDigit = false := by
  simp [Stops]

/-- A numeral consists of digits. -/
theorem isDigit_of_mem_numeral {n : Nat} {c : Char} (h : c ∈ numeral n) : c.isDigit = true :=
  Nat.isDigit_of_mem_toDigits (by decide) (by decide) h

/-- A numeral begins with a digit. -/
theorem exists_numeral_eq_cons (n : Nat) :
    ∃ c rest, numeral n = c :: rest ∧ c.isDigit = true := by
  obtain ⟨c, rest, hn⟩ := List.exists_cons_of_ne_nil (Nat.toDigits_ne_nil : numeral n ≠ [])
  exact ⟨c, rest, hn, isDigit_of_mem_numeral (hn ▸ List.mem_cons_self)⟩

/-- A numeral tells its natural. -/
theorem numeral_injective : Function.Injective numeral :=
  Function.LeftInverse.injective (g := fun digits => Nat.ofDigitChars 10 digits 0) fun _ =>
    Nat.ofDigitChars_toDigits (by decide) (by decide)

/-- A numeral is all of the digits in front of what adds none. -/
theorem takeWhile_numeral_append (n : Nat) {rest : List Char} (h : Stops rest) :
    (numeral n ++ rest).takeWhile Char.isDigit = numeral n := by
  have hrest : rest.takeWhile Char.isDigit = [] := by
    cases rest with
    | nil => rfl
    | cons c rest => simp [stops_cons_iff.mp h]
  rw [List.takeWhile_append_of_pos fun c hc => isDigit_of_mem_numeral hc, hrest, List.append_nil]

/-- A numeral is read off the front of a text that does not go on with a digit. -/
theorem numeral_append_inj {m n : Nat} {rest rest' : List Char} (hrest : Stops rest)
    (hrest' : Stops rest') (h : numeral m ++ rest = numeral n ++ rest') :
    m = n ∧ rest = rest' := by
  have hdigits : numeral m = numeral n := by
    rw [← takeWhile_numeral_append m hrest, h, takeWhile_numeral_append n hrest']
  obtain rfl := numeral_injective hdigits
  exact ⟨rfl, List.append_cancel_left h⟩

/-- An integer is read off the front of a text that does not go on with a digit. -/
theorem intText_append_inj {i j : Int} {rest rest' : List Char} (hrest : Stops rest)
    (hrest' : Stops rest') (h : intText i ++ rest = intText j ++ rest') :
    i = j ∧ rest = rest' := by
  -- A minus sign is no digit, so both integers have it or neither.
  have hsign {m n : Nat} {r r' : List Char} : '-' :: (numeral m ++ r) ≠ numeral n ++ r' := by
    obtain ⟨c, ds, hn, hc⟩ := exists_numeral_eq_cons n
    rw [hn, List.cons_append]
    rintro heq
    obtain ⟨rfl, -⟩ := List.cons.inj heq
    simp at hc
  unfold intText at h
  split at h <;> split at h
  · obtain ⟨habs, hrests⟩ := numeral_append_inj hrest hrest' (List.cons.inj h).2
    exact ⟨by omega, hrests⟩
  · exact absurd h hsign
  · exact absurd h.symm hsign
  · obtain ⟨habs, hrests⟩ := numeral_append_inj hrest hrest' h
    exact ⟨by omega, hrests⟩

/-! ## Shortest decimals -/

/-- A digit string without its trailing zeros is one that is cut at its end. -/
theorem trimZeros_eq_rdropWhile (ds : List Char) : trimZeros ds = ds.rdropWhile (· == '0') := rfl

/-- Zeros alone stand for zero. -/
theorem ofDigitChars_eq_zero {ds : List Char} (h : ∀ c ∈ ds, c = '0') :
    Nat.ofDigitChars 10 ds 0 = 0 := by
  induction ds with
  | nil => rfl
  | cons c ds ih =>
    obtain ⟨rfl, hds⟩ := List.forall_mem_cons.mp h
    simpa [Nat.ofDigitChars] using ih hds

/-- The numeral of a positive natural has digits that are not trailing zeros. -/
theorem trimZeros_numeral_ne_nil {n : Nat} (h : 0 < n) : trimZeros (numeral n) ≠ [] := by
  intro hnil
  rw [trimZeros_eq_rdropWhile, List.rdropWhile_eq_nil_iff] at hnil
  have hzero := ofDigitChars_eq_zero fun c hc => eq_of_beq (hnil c hc)
  have hn : Nat.ofDigitChars 10 (numeral n) 0 = n :=
    Nat.ofDigitChars_toDigits (by decide) (by decide)
  omega

/-- The text of a positive decimal begins with a digit. -/
theorem Decimal.exists_text_eq_cons {d : Decimal} (h : 0 < d.digits) :
    ∃ c rest, d.text = c :: rest ∧ c.isDigit = true := by
  obtain ⟨c, rest, hds⟩ := List.exists_cons_of_ne_nil (trimZeros_numeral_ne_nil h)
  have hc : c.isDigit = true := by
    have hlead : c :: rest <+: numeral d.digits := by
      rw [← hds, trimZeros_eq_rdropWhile]
      exact List.rdropWhile_prefix _ _
    exact isDigit_of_mem_numeral (hlead.mem List.mem_cons_self)
  unfold text
  simp only [hds]
  split
  · exact ⟨c, _, rfl, hc⟩
  split
  · next hpoint =>
    -- The point stands behind at least one digit.
    obtain ⟨k, hk⟩ := Nat.exists_eq_succ_of_ne_zero (Int.pos_iff_toNat_pos.mp hpoint.1).ne'
    exact ⟨c, _, by rw [hk, List.take_succ_cons, List.cons_append], hc⟩
  split
  · exact ⟨'0', _, rfl, rfl⟩
  · cases rest with
    | nil => exact ⟨c, _, rfl, hc⟩
    | cons c' rest => exact ⟨c, _, rfl, hc⟩

/-- A decimal that rounds to a double other than zero is positive. -/
theorem Scaled.digits_pos_of_admits {s : Scaled} {d : Decimal} (hs : 0 < s.mantissa)
    (h : s.admits d = true) : 0 < d.digits := by
  -- The interval of the double lies above zero.
  have hlower : 0 < s.lower := by
    unfold lower
    split <;> omega
  have hlow : 0 < (Ratio.scale s.lower (s.exponent - 2) d.exponent).num :=
    Nat.mul_pos (Nat.mul_pos hlower (Nat.pow_pos (by decide))) (Nat.pow_pos (by decide))
  by_contra hzero
  have hdigits : d.digits = 0 := by omega
  rw [admits.eq_def, hdigits] at h
  simp only [Nat.zero_mul] at h
  split at h
  · simp at h
    omega
  · simp at h

/-- What is found on a grid rounds to the double. -/
theorem Scaled.admits_of_onGrid? {s : Scaled} {e : Int} {d : Decimal} (h : s.onGrid? e = some d) :
    s.admits d = true := by
  unfold onGrid? at h
  simp only at h
  split at h
  · next hbelow habove =>
    obtain rfl := Option.some.inj h
    split
    · exact hbelow
    · exact habove
  · next hbelow habove => exact Option.some.inj h ▸ hbelow
  · next hbelow habove => exact Option.some.inj h ▸ habove
  · cases h

/-- What is too small for any double is written as zero. -/
theorem Scaled.shortest_of_mantissa_eq_zero {s : Scaled} (h : s.mantissa = 0) :
    s.shortest = ⟨0, 0⟩ := by
  have hscale (e d : Int) : (Ratio.scale 0 e d).num = 0 := by simp [Ratio.scale]
  have hden (e d : Int) : 0 < (Ratio.scale 0 e d).den :=
    Nat.mul_pos (Nat.pow_pos (by decide)) (Nat.pow_pos (by decide))
  have htop : decimalExponent (Ratio.scale s.mantissa s.exponent 0) = 1 := by
    have hpos := hden s.exponent 0
    rw [h, decimalExponent, hscale]
    simp [digitCount]
    omega
  have hadmits : s.admits ⟨0, 0⟩ = true := by
    simp [admits, h, lower, hscale]
  have hgrid : s.onGrid? 0 = some ⟨0, 0⟩ := by
    unfold onGrid?
    simp only [h, hscale, Nat.zero_div, hadmits]
    have := hden s.exponent 0
    cases s.admits ⟨1, 0⟩ with
    | true => simp [this]
    | false => simp
  unfold shortest
  simp only [htop]
  rw [maxDigits, List.range_succ_eq_map, List.findSome?_cons]
  simp [hgrid]

/-- The shortest decimal has digits that are not all zero, or else it is the digit zero alone. -/
theorem Scaled.shortest_pos_or_eq_zero (s : Scaled) :
    0 < s.shortest.digits ∨ s.shortest = ⟨0, 0⟩ := by
  rcases Nat.eq_zero_or_pos s.mantissa with hzero | hpos
  · exact .inr (shortest_of_mantissa_eq_zero hzero)
  unfold shortest
  simp only
  cases hfound : (List.range maxDigits).findSome? fun n : Nat =>
      s.onGrid? (decimalExponent (Ratio.scale s.mantissa s.exponent 0) - (n + 1)) with
  | none => exact .inr rfl
  | some d =>
    obtain ⟨n, -, hn⟩ := List.exists_of_findSome?_eq_some hfound
    exact .inl (digits_pos_of_admits hpos (admits_of_onGrid? hn))

/-! ## The text of any number -/

/-- The text of a number through its shortest decimal begins with a digit or a minus sign. -/
theorem exists_shortestText_eq_cons (negative : Bool) (magnitude : Nat) (exponent : Int) :
    ∃ c rest, shortestText negative magnitude exponent = c :: rest ∧
      (c.isDigit = true ∨ c = '-') := by
  cases negative with
  | true => exact ⟨'-', _, rfl, .inr rfl⟩
  | false =>
    rcases (Scaled.normalize magnitude exponent).shortest_pos_or_eq_zero with hpos | hzero
    · obtain ⟨c, rest, htext, hc⟩ := Decimal.exists_text_eq_cons hpos
      exact ⟨c, rest, htext, .inl hc⟩
    · refine ⟨'0', [], ?_, .inl rfl⟩
      show (Scaled.normalize magnitude exponent).shortest.text = ['0']
      rw [hzero]
      rfl

/-- The text of an integer with all its digits begins with a digit or a minus sign. -/
theorem exists_intText_eq_cons (i : Int) :
    ∃ c rest, intText i = c :: rest ∧ (c.isDigit = true ∨ c = '-') := by
  unfold intText
  split
  · exact ⟨'-', _, rfl, .inr rfl⟩
  · obtain ⟨c, rest, hn, hc⟩ := exists_numeral_eq_cons i.natAbs
    exact ⟨c, rest, hn, .inl hc⟩

/-- The JSON text of a number begins with a digit or a minus sign, or it is the word null. -/
theorem exists_json_eq_cons (n : Number) :
    ∃ c rest, n.json = c :: rest ∧ (c.isDigit = true ∨ c = '-' ∨ c = 'n') := by
  have hfinite {text : List Char} (h : ∃ c rest, text = c :: rest ∧ (c.isDigit = true ∨ c = '-')) :
      ∃ c rest, text = c :: rest ∧ (c.isDigit = true ∨ c = '-' ∨ c = 'n') := by
    obtain ⟨c, rest, htext, hc⟩ := h
    exact ⟨c, rest, htext, hc.imp_right .inl⟩
  cases n with
  | nan => exact ⟨'n', _, rfl, .inr (.inr rfl)⟩
  | infinity negative => exact ⟨'n', _, rfl, .inr (.inr rfl)⟩
  | negZero => exact ⟨'0', _, rfl, .inl rfl⟩
  | int i =>
    simp only [json, finiteText?, Option.getD_some]
    split
    · exact hfinite (exists_intText_eq_cons i)
    · exact hfinite (exists_shortestText_eq_cons _ _ _)
  | fraction numerator halvings odd => exact hfinite (exists_shortestText_eq_cons _ _ _)

end Wamp.Number
