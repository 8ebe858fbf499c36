import StackVM.Arith

set_option autoImplicit false

/-! # The operators on 32-bit words

The operators of the machine compute on integers and wrap the result. On values that are 32-bit words
they are the operators of words (`BinaryOp.apply_toInt`). Sums, differences and products can be wrapped
late: the word of the result on unbounded integers is the result on the words of the operands
(`BinaryOp.onWords_of_onIntegers`). -/

namespace StackVM

namespace BinaryOp

/-- The result of an operation on 32-bit words, `a` being the left operand. -/
def onWords (op : BinaryOp) (a b : Int32) : Except Fault Int32 :=
  match op with
  | .add => .ok (a + b)
  | .sub => .ok (a - b)
  | .mul => .ok (a * b)
  | .div => if b = 0 then .error { kind := .divisionByZero } else .ok (a / b)
  | .gt => .ok (decide (b < a)).toInt32
  | .lt => .ok (decide (a < b)).toInt32
  | .eq => .ok (decide (a = b)).toInt32
  | .ge => .ok (decide (b ≤ a)).toInt32
  | .le => .ok (decide (a ≤ b)).toInt32

/-- The operation on unbounded integers that wrapping respects, if there is one. -/
def onIntegers? : BinaryOp → Option (Int → Int → Int)
  | .add => some (· + ·)
  | .sub => some (· - ·)
  | .mul => some (· * ·)
  | .div | .gt | .lt | .eq | .ge | .le => none

theorem truth_eq_toInt {p q : Prop} [Decidable p] [Decidable q] (h : p ↔ q) :
    truth p = (decide q).toInt32.toInt := by
  by_cases hq : q
  · rw [truth, if_pos (h.2 hq), decide_eq_true hq]
    rfl
  · rw [truth, if_neg (mt h.1 hq), decide_eq_false hq]
    rfl

/-- **On 32-bit words the operators of the machine are those of words.** -/
theorem apply_toInt (op : BinaryOp) (a b : Int32) :
    op.apply a.toInt b.toInt = Int32.toInt <$> op.onWords a b := by
  cases op with
  | add => exact congrArg Except.ok (Int32.toInt_add a b).symm
  | sub => exact congrArg Except.ok (Int32.toInt_sub a b).symm
  | mul => exact congrArg Except.ok (Int32.toInt_mul a b).symm
  | div =>
    have hzero : b.toInt = 0 ↔ b = 0 := by rw [← Int32.toInt_zero, Int32.toInt_inj]
    by_cases hb : b = 0
    · rw [apply, onWords, if_pos hb, if_pos (hzero.2 hb)]
      rfl
    · rw [apply, onWords, if_neg hb, if_neg (mt hzero.1 hb)]
      exact congrArg Except.ok (Int32.toInt_div a b).symm
  | gt | lt => exact congrArg Except.ok (truth_eq_toInt Int32.lt_iff_toInt_lt.symm)
  | eq => exact congrArg Except.ok (truth_eq_toInt Int32.toInt_inj)
  | ge | le => exact congrArg Except.ok (truth_eq_toInt Int32.le_iff_toInt_le.symm)

/-- An operation that wrapping respects may be wrapped late. -/
theorem onWords_of_onIntegers {op : BinaryOp} {f : Int → Int → Int} (h : op.onIntegers? = some f)
    (x y : Int) : op.onWords (Int32.ofInt x) (Int32.ofInt y) = .ok (Int32.ofInt (f x y)) := by
  cases op with
  | add =>
    cases h
    exact congrArg Except.ok (Int32.ofInt_add x y).symm
  | sub =>
    cases h
    exact congrArg Except.ok (Int32.ofInt_sub x y).symm
  | mul =>
    cases h
    exact congrArg Except.ok (Int32.ofInt_mul x y).symm
  | div | gt | lt | eq | ge | le => simp [onIntegers?] at h

end BinaryOp

end StackVM
