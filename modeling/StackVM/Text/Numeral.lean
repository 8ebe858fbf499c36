set_option autoImplicit false

/-! # Numerals

Integers in decimal, and in lower-case hexadecimal padded with zeros on the left to a least width. The
sign of a negative number stands before the padding and counts towards the width. -/

namespace StackVM.Text

/-! ## Decimal -/

/-- The decimal digits of an integer, after a minus sign when it is negative. -/
def signedDecimal (i : Int) : List Char :=
  if i < 0 then '-' :: Nat.toDigits 10 i.natAbs else Nat.toDigits 10 i.natAbs

/-- The decimal numeral of an integer. -/
def decimal (i : Int) : String := String.ofList (signedDecimal i)

example : signedDecimal (-120) = ['-', '1', '2', '0'] := by decide

example : signedDecimal 0 = ['0'] := by decide

/-! ## Hexadecimal -/

/-- The lower-case hexadecimal digits of `n`, padded with zeros to at least `width` digits. -/
def hexDigits (width n : Nat) : List Char :=
  (Nat.toDigits 16 n).leftpad width '0'

/-- A signed hexadecimal numeral of at least `width` characters. -/
def signedHex (width : Nat) (i : Int) : List Char :=
  if i < 0 then '-' :: hexDigits (width - 1) i.natAbs else hexDigits width i.natAbs

example : signedHex 4 16 = ['0', '0', '1', '0'] := by decide

example : signedHex 4 (-65535) = ['-', 'f', 'f', 'f', 'f'] := by decide

end StackVM.Text
