import StackVM.Fault
import StackVM.Opcode
import StackVM.Word32

set_option autoImplicit false

/-! # Arithmetic

The operations on two values. Sums, differences, products and quotients are wrapped to 32 bits,
comparisons are 1 or 0. -/

namespace StackVM

namespace BinaryOp

/-- The number of a comparison. -/
def truth (p : Prop) [Decidable p] : Int := if p then 1 else 0

/-- The result of an operation, `a` being the value on top of the stack and `b` the next. A quotient
    drops its fraction; the least 32-bit integer divided by -1 is itself. -/
def apply (op : BinaryOp) (a b : Int) : Except Fault Int :=
  match op with
  | .add => .ok (Word32.wrap (a + b))
  | .sub => .ok (Word32.wrap (a - b))
  | .mul => .ok (Word32.wrap (a * b))
  | .div => if b = 0 then .error { kind := .divisionByZero } else .ok (Word32.wrap (a.tdiv b))
  | .gt => .ok (truth (a > b))
  | .lt => .ok (truth (a < b))
  | .eq => .ok (truth (a = b))
  | .ge => .ok (truth (a ≥ b))
  | .le => .ok (truth (a ≤ b))

example : apply .div (-7) 2 = .ok (-3) := rfl

example : apply .div Word32.minValue (-1) = .ok Word32.minValue := rfl

/-- A fault of an operation is a division by zero. -/
theorem apply_eq_error_iff {op : BinaryOp} {a b : Int} {fault : Fault} :
    op.apply a b = .error fault ↔ op = .div ∧ b = 0 ∧ fault = { kind := .divisionByZero } := by
  cases op with
  | div => by_cases hb : b = 0 <;> simp [apply, hb, eq_comm]
  | _ => simp [apply]

theorem inRange_truth (p : Prop) [Decidable p] : Word32.InRange (truth p) := by
  unfold truth
  split <;> decide

/-- Every result is a 32-bit integer, whatever the operands. -/
theorem inRange_of_apply {op : BinaryOp} {a b value : Int} (h : op.apply a b = .ok value) :
    Word32.InRange value := by
  cases op with
  | add | sub | mul =>
    cases h
    exact Word32.inRange_wrap _
  | div =>
    by_cases hb : b = 0
    · simp [apply, hb] at h
    · rw [apply, if_neg hb] at h
      cases h
      exact Word32.inRange_wrap _
  | gt | lt | eq | ge | le =>
    cases h
    exact inRange_truth _

end BinaryOp

end StackVM
