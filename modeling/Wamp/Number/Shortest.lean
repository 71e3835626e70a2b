import Wamp.Number.Basic

/-!
# Shortest decimals

The shortest decimal of a positive double is the one with the fewest digits that rounds back to it,
and of those the nearest; of two equally near ones, the one with an even last digit. The search is
exact: a double is `mantissa * 2 ^ exponent` and the decimals that round to it fill an interval
around it, whose ends belong to it when the mantissa is even. On the grid of decimals of `n` digits
only the two neighbours of the double need a test, for `n` from 1 to 17.
-/

namespace Wamp.Number

/-- The decimal `digits * 10 ^ exponent`. -/
structure Decimal where
  digits : Nat
  exponent : Int
  deriving DecidableEq

/-- A positive double `mantissa * 2 ^ exponent`, with a mantissa of 53 bits or, next to zero, the
least exponent. -/
structure Scaled where
  mantissa : Nat
  exponent : Int
  deriving DecidableEq

namespace Scaled

/-- The least exponent of a double. -/
def leastExponent : Int := -1074

/-- The double `magnitude * 2 ^ exponent`, cut to 53 bits. -/
def normalize (magnitude : Nat) (exponent : Int) : Scaled :=
  let target := max (exponent + (magnitude.log2 + 1) - 53) leastExponent
  if target ≤ exponent then ⟨magnitude * Nat.pow 2 (exponent - target).toNat, target⟩
  else ⟨magnitude / Nat.pow 2 (target - exponent).toNat, target⟩

/-- The next double below lies at half the usual distance from a power of two. -/
def narrowBelow (s : Scaled) : Bool :=
  s.mantissa == Nat.pow 2 52 && s.exponent != leastExponent

/-- Four times the lower end of the interval, in units of the last place. -/
def lower (s : Scaled) : Nat := 4 * s.mantissa - if s.narrowBelow then 1 else 2

/-- Four times the upper end of the interval, in units of the last place. -/
def upper (s : Scaled) : Nat := 4 * s.mantissa + 2

end Scaled

/-- A positive ratio of two naturals. -/
structure Ratio where
  num : Nat
  den : Nat

namespace Ratio

/-- The ratio `n * 2 ^ binary / 10 ^ decimal`. -/
def scale (n : Nat) (binary decimal : Int) : Ratio :=
  ⟨n * Nat.pow 2 binary.toNat * Nat.pow 10 (-decimal).toNat,
    Nat.pow 2 (-binary).toNat * Nat.pow 10 decimal.toNat⟩

end Ratio

/-- The number of decimal digits of a natural; zero has none. -/
def digitCount (n : Nat) : Nat := if n = 0 then 0 else (Nat.toDigits 10 n).length

/-- The least exponent of ten above a positive ratio. -/
def decimalExponent (r : Ratio) : Int :=
  if r.den ≤ r.num then digitCount (r.num / r.den)
  else
    let places := digitCount (r.den / r.num)
    if r.den ≤ r.num * Nat.pow 10 (places - 1) then 2 - (places : Int) else 1 - (places : Int)

/-- Whether the decimal rounds to the double. -/
def Scaled.admits (s : Scaled) (d : Decimal) : Bool :=
  let scale n := Ratio.scale n (s.exponent - 2) d.exponent
  let low := scale s.lower
  let high := scale s.upper
  if s.mantissa % 2 = 0 then low.num ≤ d.digits * low.den && d.digits * high.den ≤ high.num
  else low.num < d.digits * low.den && d.digits * high.den < high.num

/-- The nearest of the two neighbours, on the grid of step `10 ^ exponent`, that round to the
double. -/
def Scaled.onGrid? (s : Scaled) (exponent : Int) : Option Decimal :=
  let value := Ratio.scale s.mantissa s.exponent exponent
  let below : Decimal := ⟨value.num / value.den, exponent⟩
  let above : Decimal := ⟨below.digits + 1, exponent⟩
  let twice := 2 * (value.num % value.den)
  let preferBelow := twice < value.den || (twice == value.den && below.digits % 2 == 0)
  match s.admits below, s.admits above with
  | true, true => some (if preferBelow then below else above)
  | true, false => some below
  | false, true => some above
  | false, false => none

/-- The most digits that a double needs to be told from its neighbours. -/
def maxDigits : Nat := 17

/-- The shortest decimal that rounds to the double. -/
def Scaled.shortest (s : Scaled) : Decimal :=
  let top := decimalExponent (Ratio.scale s.mantissa s.exponent 0)
  ((List.range maxDigits).findSome? fun n : Nat => s.onGrid? (top - (n + 1))).getD ⟨0, 0⟩

end Wamp.Number
