import StackVM.Numeric.Shortest

set_option autoImplicit false

/-! # The layout of a floating-point number

How the digits of a number are written: with the point in its place where the point is near the
digits, otherwise with one digit before the point and a power of ten. -/

namespace StackVM

/-- The choices of a layout. The point of a number stands after its first `p` digits, before them
    when `p ≤ 0`. -/
structure Layout where
  /-- The least `p` written with the point in its place. -/
  leastPoint : Int
  /-- The greatest `p` written with the point in its place. -/
  greatestPoint : Int
  /-- The least count of digits of a power of ten. -/
  exponentDigits : Nat

namespace Layout

/-- Digits with the point after the first `point` of them, and at least one digit on both sides. -/
def positional (digits : List Char) (point : Int) : List Char :=
  if point ≤ 0 then '0' :: '.' :: List.replicate (-point).toNat '0' ++ digits
  else
    let padded := digits.rightpad (point.toNat + 1) '0'
    padded.take point.toNat ++ '.' :: padded.drop point.toNat

/-- One digit before the point, the others after it, and the signed power of ten. -/
def scientific (layout : Layout) (digits : List Char) (point : Int) : List Char :=
  let power := point - 1
  let fraction := digits.drop 1
  digits.take 1 ++ (if fraction.isEmpty then [] else '.' :: fraction) ++
    'e' :: (if power < 0 then '-' else '+') ::
      (Nat.toDigits 10 power.natAbs).leftpad layout.exponentDigits '0'

/-- A number without its sign. Zeros at the end of the digits are left to the point. -/
def magnitude (layout : Layout) (mantissa : Nat) (exponent : Int) : List Char :=
  if mantissa = 0 then ['0', '.', '0']
  else
    let decimal := Decimal.shortest mantissa exponent
    let all := Nat.toDigits 10 decimal.coefficient
    let point := all.length + decimal.exponent
    let digits := (all.reverse.dropWhile (· == '0')).reverse
    if layout.leastPoint ≤ point ∧ point ≤ layout.greatestPoint then positional digits point
    else layout.scientific digits point

/-- The text of a number. -/
def render (layout : Layout) : Binary64 → String
  | .finite negative mantissa exponent =>
    String.ofList ((if negative then ['-'] else []) ++ layout.magnitude mantissa exponent)
  | .infinite negative => if negative then "-inf" else "inf"
  | .nan => "nan"

end Layout

end StackVM
