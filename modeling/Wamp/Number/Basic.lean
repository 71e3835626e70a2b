/-!
# Numbers

The numbers that travel in payloads are IEEE doubles, held here as exact data: a number is not a
number, infinite, negative zero, an integer, or a fraction of an odd numerator over a power of two.
Each double has one such form, so equality of numbers is equality of data and a question such as
"is it an integer of at most 2 ^ 53" is a match on the form. Nothing here rounds.
-/

namespace Wamp

/-- A number of a payload: a double, or an exact value that a double would round. -/
inductive Number where
  /-- Not a number. -/
  | nan
  /-- An infinity of the given sign. -/
  | infinity (negative : Bool)
  /-- The zero that carries a minus sign. -/
  | negZero
  /-- An integer. -/
  | int (value : Int)
  /-- The odd numerator over `2 ^ (halvings + 1)`. -/
  | fraction (numerator : Int) (halvings : Nat) (odd : numerator % 2 = 1)
  deriving DecidableEq

namespace Number

/-- The integer `magnitude` under a sign. -/
def signed (negative : Bool) (magnitude : Nat) : Int :=
  if negative then -(magnitude : Int) else magnitude

/-- A sign changes nothing about which magnitudes are odd. -/
theorem signed_emod_two (negative : Bool) {magnitude : Nat} (h : magnitude % 2 ≠ 0) :
    signed negative magnitude % 2 = 1 := by
  cases negative <;> simp only [signed] <;> simp <;> omega

/-- The magnitude over `2 ^ halvings`, in lowest terms. -/
def ofHalvings (negative : Bool) (magnitude : Nat) : Nat → Number
  | 0 => .int (signed negative magnitude)
  | halvings + 1 =>
    if h : magnitude % 2 = 0 then ofHalvings negative (magnitude / 2) halvings
    else .fraction (signed negative magnitude) halvings (signed_emod_two negative h)

/-- The number `± magnitude * 2 ^ exponent`, where a zero keeps its sign. -/
def ofScaled (negative : Bool) (magnitude : Nat) (exponent : Int) : Number :=
  if magnitude = 0 then if negative then .negZero else .int 0
  else if 0 ≤ exponent then .int (signed negative (magnitude * Nat.pow 2 exponent.toNat))
  else ofHalvings negative magnitude (-exponent).toNat

/-- The number that a binary64 bit pattern stands for. -/
def ofBits (bits : UInt64) : Number :=
  let negative := bits >>> 63 == 1
  let exponent := ((bits >>> 52) &&& 0x7ff).toNat
  let mantissa := (bits &&& 0xfffffffffffff).toNat
  if exponent = 0x7ff then if mantissa = 0 then .infinity negative else .nan
  else if exponent = 0 then ofScaled negative mantissa (-1074)
  else ofScaled negative (Nat.pow 2 52 + mantissa) (exponent - 1075)

/-- The integer that a number is equal to, where both zeros are zero. -/
def toInt? : Number → Option Int
  | .int value => some value
  | .negZero => some 0
  | _ => none

/-- Whether a number is below a bound; no comparison with what is not a number holds. -/
def isBelow : Number → Int → Bool
  | .nan, _ => false
  | .infinity negative, _ => negative
  | .negZero, bound => decide (0 < bound)
  | .int value, bound => decide (value < bound)
  | .fraction numerator halvings _, bound => decide (numerator < bound * Nat.pow 2 (halvings + 1))

/-- Whether a number is above a bound; no comparison with what is not a number holds. -/
def isAbove : Number → Int → Bool
  | .nan, _ => false
  | .infinity negative, _ => !negative
  | .negZero, bound => decide (bound < 0)
  | .int value, bound => decide (bound < value)
  | .fraction numerator halvings _, bound => decide (bound * Nat.pow 2 (halvings + 1) < numerator)

end Number

end Wamp
