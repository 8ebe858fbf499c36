import StackVM.Numeric.Binary64

set_option autoImplicit false

/-! # Shortest decimals

The decimal with the fewest digits that reads back as a given double-precision number; of several,
the nearest to it. A decimal reads back as the number `m * 2 ^ q` when it lies in the interval
halfway to both neighbours, whose ends belong to it when `m` is even. For each count of digits only
the two decimals around the number have to be tried. -/

namespace StackVM

/-- The number `coefficient * 10 ^ exponent`. -/
structure Decimal where
  coefficient : Nat
  exponent : Int
  deriving DecidableEq, Repr

namespace Decimal

/-- A power `2 ^ q / 10 ^ g` as a quotient of natural numbers. -/
def powerRatio (q g : Int) : Nat × Nat :=
  (Nat.pow 10 (-g).toNat <<< q.toNat, Nat.pow 10 g.toNat <<< (-q).toNat)

/-- The least `k` with `m * 2 ^ q < 10 ^ k`. No positive number is below `10 ^ (-324)`, so that many
    places are enough to see its first digit. -/
def magnitude (m : Nat) (q : Int) : Int :=
  let (a, b) := powerRatio q (-324)
  (Nat.toDigits 10 (m * a / b)).length - 324

/-- Whether `d * 10 ^ g` reads back as `m * 2 ^ q`. The next number below is half as far away as the
    next above when `narrow`; all is counted in quarters of `2 ^ q`. -/
def readsBack (m : Nat) (q : Int) (narrow : Bool) (d : Nat) (g : Int) : Bool :=
  let (a, b) := powerRatio q g
  let low := (4 * m - if narrow then 1 else 2) * a
  let high := (4 * m + 2) * a
  let x := 4 * d * b
  if m % 2 = 0 then low ≤ x && x ≤ high else low < x && x < high

/-- The nearer of the two decimals around `m * 2 ^ q` on the grid `10 ^ g` of those that read back;
    of two as near, the even one. -/
def onGrid? (m : Nat) (q : Int) (narrow : Bool) (g : Int) : Option Decimal :=
  let (a, b) := powerRatio q g
  let below := m * a / b
  let above := below + 1
  let toBelow := m * a - below * b
  let toAbove := above * b - m * a
  let down := readsBack m q narrow below g
  let up := readsBack m q narrow above g
  if down && (!up || toBelow < toAbove || (toBelow = toAbove && below % 2 = 0)) then
    some ⟨below, g⟩
  else if up then some ⟨above, g⟩
  else none

/-- The shortest decimal of a positive number `m * 2 ^ q`. Seventeen digits are always enough. -/
def shortest (m : Nat) (q : Int) : Decimal :=
  let narrow := m = Binary64.hiddenBit ∧ Binary64.minExponent < q
  let k := magnitude m q
  ((List.range' 1 17).findSome? fun (digits : Nat) => onGrid? m q narrow (k - digits)).getD ⟨0, 0⟩

example : shortest 0x10000000000000 (-52) = ⟨1, 0⟩ := by decide +kernel

/-- The double-precision number nearest to 0.1. -/
example : shortest 0x1999999999999a (-56) = ⟨1, -1⟩ := by decide +kernel

/-- The least positive number. -/
example : shortest 1 (-1074) = ⟨5, -324⟩ := by decide +kernel

end Decimal

end StackVM
