import Pagefold.Decimal.Shortest

/-!
# JSON numbers

A number is an integer of up to 64 bits, kept as it is, or a double. A double is written with the
fewest digits that read back as it, and always with a point or an exponent.

* `Json.Number`, `Json.Number.ofParts?`: the numbers, and the one with given sign, digits and
  exponent of ten;
* `Json.Number.text`: how a number is written.
-/

namespace Pagefold.Json

inductive Number where
  /-- An integer that is not negative. -/
  | whole (n : Nat)
  /-- The negative integer `-n`. -/
  | negative (n : Nat)
  /-- A double, by its bits. -/
  | double (bits : UInt64)
deriving Repr, DecidableEq

namespace Number

/-! ## From digits -/

/-- The power of ten nearest to `10 ^ k`. -/
def powerOfTen (k : Nat) : Float := Float.ofScientific 1 false k

/-- A double times a power of ten, in steps of at most `10 ^ 308`; none if it grows out of range. -/
def scaled? (f : Float) (exponent : Int) : Option Float :=
  if exponent < -308 then
    if f == 0.0 then some f else scaled? (f / powerOfTen 308) (exponent + 308)
  else if exponent < 0 then some (f / powerOfTen exponent.natAbs)
  else if exponent ≤ 308 then
    let g := f * powerOfTen exponent.toNat
    if g.isInf then none else some g
  else if f == 0.0 then some f else none
termination_by exponent.natAbs
decreasing_by omega

/-- The double with a sign, digits below `2 ^ 64` and an exponent of ten; none if it is out of
range. The digits are rounded first and scaled then. -/
def ofParts? (negative : Bool) (digits : Nat) (exponent : Int) : Option Number :=
  (scaled? digits.toUInt64.toFloat exponent).map fun f =>
    .double (if negative then -f else f).toBits

/-- The integer with a sign and digits below `2 ^ 64`. Minus zero, and what is too small for
64 bits, is a double. -/
def ofInteger (negative : Bool) (digits : Nat) : Number :=
  if !negative then .whole digits
  else if digits = 0 || digits > Nat.pow 2 63 then .double (-digits.toUInt64.toFloat).toBits
  else .negative digits

/-! ## Writing -/

/-- The exponents of the first digit for which a double is written without an exponent. -/
def positional (exponent : Int) : Bool := -5 ≤ exponent && exponent ≤ 15

/-- A positive decimal, with a point or an exponent. -/
def decimalText (d : Decimal) : Text :=
  let digits := Text.ofNat d.digits
  let top := d.exponent + digits.length - 1
  if positional top then
    if top < 0 then '0' :: '.' :: List.replicate (-top - 1).toNat '0' ++ digits
    else if 0 ≤ d.exponent then digits ++ List.replicate d.exponent.toNat '0' ++ ".0".toList
    else digits.take (top + 1).toNat ++ '.' :: digits.drop (top + 1).toNat
  else
    let fraction := if digits.length ≤ 1 then [] else '.' :: digits.drop 1
    let exponent := if top < 0 then '-' :: Text.ofNat (-top).toNat else '+' :: Text.ofNat top.toNat
    digits.take 1 ++ fraction ++ 'e' :: exponent

def doubleText (bits : UInt64) : Text :=
  let b := Binary.ofBits bits
  let size := if b.mantissa = 0 then "0.0".toList else decimalText b.shortest
  if bits ≥ 0x8000000000000000 then '-' :: size else size

def text : Number → Text
  | whole n => Text.ofNat n
  | negative n => '-' :: Text.ofNat n
  | double bits => doubleText bits

end Number

end Pagefold.Json
