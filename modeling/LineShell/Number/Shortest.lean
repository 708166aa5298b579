import LineShell.Number.Binary64
import LineShell.Text.Basic

/-!
# Shortest decimals

A binary64 number is written with the **fewest digits** that read back as the same number, and of
those digits the nearest.

* `Binary64.shortest`: these digits and their scale.
* `Binary64.text`: the number written out.
-/

namespace LineShell.Binary64

/-- Reals given over one denominator: a number, and the ends of the interval that rounds to it. -/
structure Span where
  low : Nat
  value : Nat
  high : Nat
  den : Nat
  closed : Bool

/-- The span of a positive number.  The next number below a power of two is only half as far away.
The ends belong to the span if the mantissa is even. -/
def span (m : Nat) (e : Int) : Span :=
  let unit := power 2 (e - 2)
  { low := (if m = fullMantissa ∧ e ≠ -1074 then 4 * m - 1 else 4 * m - 2) * unit
    value := 4 * m * unit
    high := (4 * m + 2) * unit
    den := power 2 (2 - e)
    closed := m % 2 = 0 }

/-- The multiple of `10 ^ k` in the span that is nearest to its number, if there is one: only the
two neighbours of the number have to be tried.  Of two equally near the even one is taken. -/
def onGrid? (s : Span) (k : Int) : Option Nat :=
  let up := power 10 (-k)
  let step := s.den * power 10 k
  let holds (c : Nat) : Bool :=
    let x := c * step
    if s.closed then s.low * up ≤ x && x ≤ s.high * up else s.low * up < x && x < s.high * up
  let c := s.value * up / step
  match holds c, holds (c + 1) with
  | true, true => some (nearest (s.value * up) step)
  | true, false => some c
  | false, true => some (c + 1)
  | false, false => none

/-- The digits and the scale of the shortest decimal of a positive number.  The first grid is
coarser than the number, and 17 digits always suffice. -/
def shortest (m : Nat) (e : Int) : Nat × Int :=
  let top : Int := (m.log2 + e + 1) * 30103 / 100000 + 1
  ((List.range 20).findSome? fun (i : Nat) =>
    (onGrid? (span m e) (top - i)).map fun c => (c, top - i)).getD (m, e)

/-- The decimal `digits * 10 ^ scale`: with a point for exponents from -4 to 15, with an exponent of
at least two digits otherwise. -/
def decimalText (digits : Nat) (scale : Int) : Text :=
  let ds := Text.decimal digits
  let size : Int := ds.length + scale
  let zeros (n : Int) : Text := List.replicate n.toNat .zero
  if -4 < size ∧ size ≤ 16 then
    if 0 ≤ scale then ds ++ zeros scale ++ .ofString ".0"
    else if 0 < size then ds.take size.toNat ++ [.dot] ++ ds.drop size.toNat
    else .ofString "0." ++ zeros (-size) ++ ds
  else
    let exponent := size - 1
    let sign : CodePoint := if exponent < 0 then .hyphen else .plus
    ds.take 1 ++ (if ds.length = 1 then [] else .dot :: ds.drop 1) ++ .ofString "e" ++ [sign] ++
      (Text.decimal exponent.natAbs).leftpad 2 .zero

def text : Binary64 → Text
  | .nan => .ofString "nan"
  | .infinite negative => .ofString (if negative then "-inf" else "inf")
  | .finite negative m e =>
    let size := if m = 0 then decimalText 0 0 else
      let (digits, scale) := shortest m e
      decimalText digits scale
    if negative then .hyphen :: size else size

end LineShell.Binary64
