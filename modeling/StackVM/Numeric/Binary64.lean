set_option autoImplicit false

/-! # Double-precision numbers

A 64-bit pattern as the number it stands for: a sign, a mantissa and a power of two. Negative zero
is apart from zero, but both are the integer 0. -/

namespace StackVM

/-- A double-precision floating-point number. -/
inductive Binary64 where
  /-- The number `± mantissa * 2 ^ exponent`. -/
  | finite (negative : Bool) (mantissa : Nat) (exponent : Int)
  | infinite (negative : Bool)
  | nan
  deriving DecidableEq, Repr

namespace Binary64

/-- The exponent of the least positive number. -/
def minExponent : Int := -1074

/-- The mantissa of the powers of two, the least of a number with a greater exponent. -/
def hiddenBit : Nat := 1 <<< 52

/-- The number of a bit pattern: sign, eleven bits of exponent, fraction. -/
def ofBits (bits : UInt64) : Binary64 :=
  let n : Nat := bits.toNat
  let negative := n.testBit 63
  let biased : Nat := n / hiddenBit % 0x800
  let fraction : Nat := n % hiddenBit
  if biased = 0x7ff then
    if fraction = 0 then .infinite negative else .nan
  else if biased = 0 then .finite negative fraction minExponent
  else .finite negative (hiddenBit + fraction) (minExponent + biased - 1)

/-- The integer a number is equal to, if it is one. -/
def integer? : Binary64 → Option Int
  | .finite negative mantissa exponent =>
    let magnitude := mantissa <<< exponent.toNat
    let divisor := 1 <<< (-exponent).toNat
    if magnitude % divisor = 0 then
      let quotient : Int := ↑(magnitude / divisor)
      some (if negative then -quotient else quotient)
    else none
  | .infinite _ | .nan => none

example : (ofBits 0x3ff8000000000000).integer? = none := by decide

example : (ofBits 0xc008000000000000).integer? = some (-3) := by decide

/-- Negative zero is the integer 0. -/
example : (ofBits 0x8000000000000000).integer? = some 0 := by decide +kernel

end Binary64

end StackVM
