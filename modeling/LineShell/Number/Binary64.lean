/-!
# Binary numbers of 64 bits

A **binary64** number is `m * 2 ^ e` for a mantissa `m` below `2 ^ 53` and an exponent `e` from
-1074 to 971, with a sign; or it is infinite; or it is not a number.

* `Binary64.ofFraction`, `Binary64.ofDecimal`: the number nearest to a fraction or a decimal; of two
  that are equally near, the one with the even mantissa.
* `Binary64.toInt?`: the integer that a number is, if it is one.
-/

namespace LineShell

/-- A binary64 number.  Of a finite number the mantissa is at least `2 ^ 52` or the exponent is
-1074. -/
inductive Binary64
  | nan
  | infinite (negative : Bool)
  | finite (negative : Bool) (mantissa : Nat) (exponent : Int)
deriving DecidableEq, Repr

namespace Binary64

/-- The least mantissa of a number that is not tiny, `2 ^ 52`. -/
def fullMantissa : Nat := 0x10000000000000

/-- The whole factor in `base ^ e`: the power itself, or one if `e` is negative.  So `base ^ e` is
the fraction `power base e / power base (-e)`. -/
def power (base : Nat) (e : Int) : Nat := Nat.pow base e.toNat

def zero (negative : Bool) : Binary64 := .finite negative 0 (-1074)

/-- The natural number nearest to `num / den`, the even one of two. -/
def nearest (num den : Nat) : Nat :=
  let q := num / den
  let twice := 2 * (num % den)
  if twice < den then q
  else if den < twice then q + 1
  else q + q % 2

/-- The number nearest to `num / den`.  At an exponent one above the least possible, the quotient
has 54 bits or 53; rounding may carry into one bit more. -/
def ofFraction (negative : Bool) (num den : Nat) : Binary64 :=
  if num = 0 then zero negative
  else
    let scaled (e : Int) (f : Nat → Nat → Nat) : Nat :=
      f (num * power 2 (-e)) (den * power 2 e)
    let low : Int := num.log2 - den.log2 - 53
    let e := max (-1074) (if scaled low (· / ·) < 2 * fullMantissa then low else low + 1)
    let m := scaled e nearest
    let (m, e) := if m = 2 * fullMantissa then (fullMantissa, e + 1) else (m, e)
    if 971 < e then .infinite negative else .finite negative m e

/-- The number nearest to `digits * 10 ^ scale`.  A decimal of `10 ^ 310` or more is infinite and
one below `10 ^ (-325)` is zero, whatever its digits. -/
def ofDecimal (negative : Bool) (digits : Nat) (scale : Int) : Binary64 :=
  if digits = 0 then zero negative
  else
    let size : Int := (Nat.toDigits 10 digits).length + scale
    if 310 < size then .infinite negative
    else if size < -324 then zero negative
    else ofFraction negative (digits * power 10 scale) (power 10 (-scale))

def toInt? : Binary64 → Option Int
  | .finite negative m e =>
    let size := m * power 2 e
    let part := power 2 (-e)
    if size % part = 0 then
      let n : Int := (size / part : Nat)
      some (if negative then -n else n)
    else none
  | _ => none

def isFinite : Binary64 → Bool
  | .finite .. => true
  | _ => false

end Binary64

end LineShell
