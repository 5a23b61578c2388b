import Pagefold.Text

/-!
# Shortest decimals

A binary number `m * 2 ^ q` stands for all reals that round to it. Among the decimals in that
interval the shortest is taken, and of several the nearest.

* `Decimal`: an integer times a power of ten;
* `Binary`, `Binary.ofBits`: a finite double as `m * 2 ^ q`;
* `Binary.shortest`: the shortest decimal that reads back as the number.
-/

namespace Pagefold

/-- The number `digits * 10 ^ exponent`. -/
structure Decimal where
  digits : Nat
  exponent : Int
deriving Repr, DecidableEq

def Text.ofNat (n : Nat) : Text := Nat.toDigits 10 n

/-- A finite double without its sign: `mantissa * 2 ^ exponent`. -/
structure Binary where
  mantissa : Nat
  exponent : Int
  /-- Whether the next smaller number is only half as far away as the next larger one. -/
  narrowBelow : Bool
deriving Repr, DecidableEq

namespace Binary

def ofBits (bits : UInt64) : Binary :=
  let fraction : Nat := bits.toNat % Nat.pow 2 52
  let field : Nat := bits.toNat / Nat.pow 2 52 % Nat.pow 2 11
  if field = 0 then ⟨fraction, -1074, false⟩
  else ⟨Nat.pow 2 52 + fraction, (field : Int) - 1075, fraction = 0 && field > 1⟩

/-- Numerator and denominator of `n * 2 ^ q`. -/
def fraction (n : Nat) (q : Int) : Nat × Nat :=
  if 0 ≤ q then (n * Nat.pow 2 q.toNat, 1) else (n, Nat.pow 2 (-q).toNat)

/-- Numerator and denominator of a quotient divided by a power of ten. -/
def overTen (x : Nat × Nat) (k : Int) : Nat × Nat :=
  if 0 ≤ k then (x.1, x.2 * Nat.pow 10 k.toNat) else (x.1 * Nat.pow 10 (-k).toNat, x.2)

/-- The exponent of the highest decimal digit of a positive quotient. -/
def topExponent (x : Nat × Nat) : Int :=
  let e : Int := (Text.ofNat x.1).length - (Text.ofNat x.2).length
  let y := overTen x e
  if y.2 ≤ y.1 then e else e - 1

/-- Whether the decimal `d * 10 ^ k` rounds to the number. Halves of the way to the neighbours
count only when the mantissa is even. -/
def holds (b : Binary) (d : Nat) (k : Int) : Bool :=
  let low := overTen (fraction (4 * b.mantissa - if b.narrowBelow then 1 else 2) (b.exponent - 2)) k
  let high := overTen (fraction (4 * b.mantissa + 2) (b.exponent - 2)) k
  if b.mantissa % 2 = 0 then low.1 ≤ d * low.2 && d * high.2 ≤ high.1
  else low.1 < d * low.2 && d * high.2 < high.1

/-- Of the two neighbours of the number among the multiples of `10 ^ k`, the one that rounds to it;
of two such the nearer, and the even one when they are equally near. -/
def onGrid? (b : Binary) (k : Int) : Option Decimal :=
  let x := overTen (fraction b.mantissa b.exponent) k
  let d := x.1 / x.2
  match holds b d k && d != 0, holds b (d + 1) k with
  | true, true =>
    let twice := 2 * (x.1 % x.2)
    if twice < x.2 || (twice = x.2 && d % 2 = 0) then some ⟨d, k⟩ else some ⟨d + 1, k⟩
  | true, false => some ⟨d, k⟩
  | false, true => some ⟨d + 1, k⟩
  | false, false => none

/-- A decimal without trailing zeros, which are moved to the exponent, at most `n` of them. -/
def trimZeros : Nat → Decimal → Decimal
  | 0, d => d
  | n + 1, d => if d.digits % 10 = 0 then trimZeros n ⟨d.digits / 10, d.exponent + 1⟩ else d

/-- The first grid with a decimal that rounds to the number, from `k` downwards in `n` steps. -/
def search (b : Binary) : Nat → Int → Decimal
  | 0, k => ⟨0, k⟩
  | n + 1, k => (onGrid? b k).getD (search b n (k - 1))

def shortest (b : Binary) : Decimal :=
  trimZeros 20 (search b 20 (topExponent (fraction b.mantissa b.exponent)))

end Binary

end Pagefold
