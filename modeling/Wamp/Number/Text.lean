import Wamp.Number.Shortest

/-!
# The text of a number

Integers up to `2 ^ 53` in magnitude are written with all their digits, every other finite number
with its shortest decimal. A decimal is written positionally from `10 ^ -6` up to below `10 ^ 21`
and with an exponent elsewhere; negative zero is written as zero.
-/

namespace Wamp.Number

/-- The largest magnitude below which doubles hold every integer. -/
def maxExact : Nat := Nat.pow 2 53

/-- A natural written in decimal. -/
def numeral (n : Nat) : List Char := Nat.toDigits 10 n

/-- Where positional notation ends: values below `10 ^ high` and from `10 ^ low` on are written
without an exponent. -/
structure Layout where
  high : Int
  low : Int

/-- Values from `10 ^ -6` up to below `10 ^ 21` are written positionally. -/
def layout : Layout := ⟨21, -6⟩

/-- A digit string without its trailing zeros. -/
def trimZeros (ds : List Char) : List Char := (ds.reverse.dropWhile (· == '0')).reverse

/-- A sign and digits of an exponent. -/
def exponentText (e : Int) : List Char :=
  (if e < 0 then '-' else '+') :: numeral e.natAbs

/-- The text of a positive decimal. -/
def Decimal.text (d : Decimal) : List Char :=
  let all := numeral d.digits
  let point := all.length + d.exponent
  let ds := trimZeros all
  if (ds.length : Int) ≤ point ∧ point ≤ layout.high then
    ds ++ List.replicate (point - ds.length).toNat '0'
  else if 0 < point ∧ point ≤ layout.high then
    ds.take point.toNat ++ '.' :: ds.drop point.toNat
  else if layout.low < point ∧ point ≤ 0 then
    '0' :: '.' :: (List.replicate (-point).toNat '0' ++ ds)
  else match ds with
    | [c] => c :: 'e' :: exponentText (point - 1)
    | c :: rest => c :: '.' :: (rest ++ 'e' :: exponentText (point - 1))
    | [] => []

/-- The text of `± magnitude * 2 ^ exponent` through its shortest decimal. -/
def shortestText (negative : Bool) (magnitude : Nat) (exponent : Int) : List Char :=
  let unsigned := (Scaled.normalize magnitude exponent).shortest.text
  if negative then '-' :: unsigned else unsigned

/-- The text of an integer with all its digits. -/
def intText (value : Int) : List Char :=
  if value < 0 then '-' :: numeral value.natAbs else numeral value.natAbs

/-- The text of a finite number; nothing for the infinities and what is not a number. -/
def finiteText? : Number → Option (List Char)
  | .nan => none
  | .infinity _ => none
  | .negZero => some ['0']
  | .int value =>
    some (if value.natAbs ≤ maxExact then intText value
      else shortestText (decide (value < 0)) value.natAbs 0)
  | .fraction numerator halvings _ =>
    some (shortestText (decide (numerator < 0)) numerator.natAbs (-(halvings + 1)))

/-- The text of a number inside JSON, which has no word for the numbers that are not finite. -/
def json (n : Number) : List Char := n.finiteText?.getD ['n', 'u', 'l', 'l']

end Wamp.Number
