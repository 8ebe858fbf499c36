import StackVM.Machine
import StackVM.Proofs.Steps
import StackVM.Proofs.WordArithmetic

set_option autoImplicit false

/-! # The operators on bit vectors

A value of the machine is a vector of 32 bits read as a signed integer, and its operators are the
arithmetic of such vectors (`BinaryOp.apply_of_onBits?`): sums, differences and products modulo
`2 ^ 32`, signed quotients, signed comparisons. The signed quotient is the integer one, which drops
its fraction, but for the single quotient that 32 bits do not hold (`BinaryOp.toInt_sdiv_iff`). To drop
the fraction is to divide the absolute values and to mend the sign (`quotientOfAbs_eq_tdiv`). So a
program that applies an operator to two constants returns the result on bit vectors
(`Machine.run_calculation`). -/

namespace StackVM

/-! ## Quotients of integers -/

/-- The quotient of `a` by `b` has a remainder that is less than the divisor, and is zero or of the
    sign of the dividend. -/
def IsQuotient (a b q : Int) : Prop :=
  ∃ r, a = q * b + r ∧ r.natAbs < b.natAbs ∧ (r = 0 ∨ r.sign = a.sign)

namespace IsQuotient

variable {a b q : Int}

theorem tdiv (a : Int) (hb : b ≠ 0) : IsQuotient a b (a.tdiv b) := by
  refine ⟨a.tmod b, ?_, ?_, ?_⟩
  · rw [Int.mul_comm, Int.add_comm]
    exact (Int.tmod_add_mul_tdiv a b).symm
  · rw [Int.natAbs_tmod]
    exact Nat.mod_lt _ (Int.natAbs_pos.2 hb)
  · by_cases hdvd : b ∣ a
    · exact Or.inl (Int.tmod_eq_zero_of_dvd hdvd)
    · right
      rw [Int.sign_tmod, if_neg hdvd]

/-- The dividend and the divisor leave no choice of the quotient: the sign of the remainder is
    settled by the dividend. -/
theorem eq_tdiv (hb : b ≠ 0) (h : IsQuotient a b q) : a.tdiv b = q := by
  obtain ⟨r, ha, hr, hsign⟩ := h
  have heq : r + b * q = a := by rw [ha, Int.mul_comm, Int.add_comm]
  rcases Int.le_total 0 a with hpos | hneg
  · have hnonneg : 0 ≤ r := by
      rcases hsign with hzero | hsame
      · omega
      · rwa [← Int.sign_nonneg_iff, hsame, Int.sign_nonneg_iff]
    exact ((Int.tdiv_tmod_unique hpos hb).2 ⟨heq, hnonneg, by omega⟩).1
  · have hnonpos : r ≤ 0 := by
      rcases hsign with hzero | hsame
      · omega
      · rwa [← Int.sign_nonpos_iff, hsame, Int.sign_nonpos_iff]
    exact ((Int.tdiv_tmod_unique' hneg hb).2 ⟨heq, by omega, hnonpos⟩).1

theorem iff_tdiv_eq (hb : b ≠ 0) : IsQuotient a b q ↔ a.tdiv b = q := by
  constructor
  · exact eq_tdiv hb
  · rintro rfl
    exact tdiv a hb

end IsQuotient

/-- The quotient of the absolute values, negative if exactly one of the numbers is. -/
def quotientOfAbs (a b : Int) : Int :=
  if a < 0 ↔ b < 0 then (a.natAbs / b.natAbs : Nat) else -(a.natAbs / b.natAbs : Nat)

/-- To divide the absolute values is to drop the fraction. -/
theorem quotientOfAbs_eq_tdiv (a b : Int) : quotientOfAbs a b = a.tdiv b := by
  have hpos : ∀ n : Nat, ¬ (Int.ofNat n < 0) := fun n => Int.not_lt.2 (Int.natCast_nonneg n)
  have hneg : ∀ n : Nat, Int.negSucc n < 0 := Int.negSucc_lt_zero
  cases a with
  | ofNat m =>
    cases b with
    | ofNat n =>
      rw [quotientOfAbs, if_pos (iff_of_false (hpos m) (hpos n))]
      rfl
    | negSucc n =>
      rw [quotientOfAbs, if_neg fun h => hpos m (h.2 (hneg n))]
      rfl
  | negSucc m =>
    cases b with
    | ofNat n =>
      rw [quotientOfAbs, if_neg fun h => hpos n (h.1 (hneg m))]
      rfl
    | negSucc n =>
      rw [quotientOfAbs, if_pos (iff_of_true (hneg m) (hneg n))]
      rfl

/-! ## The operators -/

namespace BinaryOp

/-- The operation on vectors of 32 bits, read as signed integers where that matters, `x` being the
    left operand. A quotient by zero is no vector. -/
def onBits? (op : BinaryOp) (x y : BitVec 32) : Option (BitVec 32) :=
  match op with
  | .add => some (x + y)
  | .sub => some (x - y)
  | .mul => some (x * y)
  | .div => if y = 0 then none else some (x.sdiv y)
  | .gt => some (if y.slt x then 1 else 0)
  | .lt => some (if x.slt y then 1 else 0)
  | .eq => some (if x = y then 1 else 0)
  | .ge => some (if y.sle x then 1 else 0)
  | .le => some (if x.sle y then 1 else 0)

variable {op : BinaryOp} {a b : Int32}

theorem onBits?_eq_none_iff {x y : BitVec 32} : op.onBits? x y = none ↔ op = .div ∧ y = 0 := by
  cases op with
  | div => by_cases hy : y = 0 <;> simp [onBits?, hy]
  | add | sub | mul | gt | lt | eq | ge | le => simp [onBits?]

/-- A comparison of words is 1 or 0 as a bit vector, too. -/
theorem toBitVec_toInt32_decide {p : Prop} [Decidable p] :
    (decide p).toInt32.toBitVec = if p then 1 else 0 := by
  by_cases hp : p
  · rw [decide_eq_true hp, if_pos hp]
    rfl
  · rw [decide_eq_false hp, if_neg hp]
    rfl

/-- The operators on words are those on the bit vectors of the words. -/
theorem onBits?_toBitVec (op : BinaryOp) (a b : Int32) :
    op.onBits? a.toBitVec b.toBitVec = (op.onWords a b).toOption.map Int32.toBitVec := by
  cases op with
  | add | sub | mul => rfl
  | div =>
    have hzero : b.toBitVec = 0 ↔ b = 0 := Int32.toBitVec_inj (b := 0)
    by_cases hb : b = 0
    · rw [onBits?, onWords, if_pos hb, if_pos (hzero.2 hb)]
      rfl
    · rw [onBits?, onWords, if_neg hb, if_neg (mt hzero.1 hb)]
      rfl
  | gt | lt | ge | le => exact congrArg some toBitVec_toInt32_decide.symm
  | eq =>
    have heq : a = b ↔ a.toBitVec = b.toBitVec := Int32.toBitVec_inj.symm
    simp only [onBits?, onWords, heq]
    exact congrArg some toBitVec_toInt32_decide.symm

/-- The machine computes what the vectors do, if that is a vector. -/
theorem apply_of_onBits? {z : BitVec 32} (h : op.onBits? a.toBitVec b.toBitVec = some z) :
    op.apply a.toInt b.toInt = .ok z.toInt := by
  rw [onBits?_toBitVec, Option.map_eq_some_iff] at h
  obtain ⟨w, hw, rfl⟩ := h
  rw [apply_toInt]
  cases hwords : op.onWords a b with
  | error fault =>
    rw [hwords] at hw
    cases hw
  | ok value =>
    rw [hwords] at hw
    cases hw
    rfl

/-- A division by anything but zero wraps the quotient of the absolute values with its sign. -/
theorem apply_div (x y : Int) :
    div.apply x y = if y = 0 then .error { kind := .divisionByZero }
      else .ok (Word32.wrap (quotientOfAbs x y)) := by
  rw [apply, quotientOfAbs_eq_tdiv]

/-- The signed quotient of two vectors is the integer quotient, but for the least integer divided by
    -1, which is too great by one. -/
theorem toInt_sdiv_iff (hb : b ≠ 0) (hfits : ¬ (a = Int32.minValue ∧ b = -1)) {q : Int} :
    (a.toBitVec.sdiv b.toBitVec).toInt = q ↔ IsQuotient a.toInt b.toInt q := by
  have hzero : b.toInt ≠ 0 := by
    rwa [Ne, ← Int32.toInt_zero, Int32.toInt_inj]
  have hquotient : (a.toBitVec.sdiv b.toBitVec).toInt = a.toInt.tdiv b.toInt := by
    refine BitVec.toInt_sdiv_of_ne_or_ne _ _ ?_
    rw [← Decidable.not_and_iff_not_or_not]
    rintro ⟨ha, hb⟩
    exact hfits ⟨Int32.toBitVec_inj.1 ha, Int32.toBitVec_inj.1 hb⟩
  rw [hquotient, IsQuotient.iff_tdiv_eq hzero]

end BinaryOp

/-! ## Calculations -/

/-- Applies an operator to two constants and returns the result. The left operand comes last, so that
    it is on top. -/
def Program.calculation (op : BinaryOp) (a b : Int32) : Program :=
  [.const b, .const a, .binary op, .ret]

namespace Program

variable {op : BinaryOp} {a b : Int32}

/-- A calculation comes to its operator with both operands on the stack. -/
theorem steps_calculation (op : BinaryOp) (a b : Int32) :
    (calculation op a b).Steps none ⟨0, []⟩ [⟨0, []⟩, ⟨1, [⟨none, b.toInt⟩]⟩]
      ⟨2, [⟨none, a.toInt⟩, ⟨none, b.toInt⟩]⟩ := by
  have hfirst : (calculation op a b).step none ⟨0, []⟩ = .running ⟨1, [⟨none, b.toInt⟩]⟩ := rfl
  have hsecond : (calculation op a b).step none ⟨1, [⟨none, b.toInt⟩]⟩ =
      .running ⟨2, [⟨none, a.toInt⟩, ⟨none, b.toInt⟩]⟩ := rfl
  exact (Steps.refl.tail hfirst).tail hsecond

theorem step_operator (op : BinaryOp) (a b : Int32) :
    (calculation op a b).step none ⟨2, [⟨none, a.toInt⟩, ⟨none, b.toInt⟩]⟩ =
      match op.apply a.toInt b.toInt with
      | .ok value => .running ⟨3, [⟨none, value⟩]⟩
      | .error fault => .ended (.fault fault) ⟨2, []⟩ := by
  have hfetch : (calculation op a b)[2]? = some (.binary op) := rfl
  rw [step, hfetch]
  simp only [Instr.effect]
  cases op.apply a.toInt b.toInt <;> rfl

theorem run_calculation_of_ok {value : Int} (h : op.apply a.toInt b.toInt = .ok value)
    (budget : Nat) :
    (calculation op a b).run none budget =
      if 3 < budget then some ⟨.result value, ⟨3, []⟩, [0, 1, 2, 3]⟩ else none := by
  have hop := step_operator op a b
  rw [h] at hop
  have hret : (calculation op a b).step none ⟨3, [⟨none, value⟩]⟩ =
      .ended (.result value) ⟨3, []⟩ := rfl
  exact ((steps_calculation op a b).tail hop).runFrom_of_ended hret (Nat.lt_succ_self 3) budget

theorem run_calculation_of_error {fault : Fault} (h : op.apply a.toInt b.toInt = .error fault)
    (budget : Nat) :
    (calculation op a b).run none budget =
      if 2 < budget then some ⟨.fault fault, ⟨2, []⟩, [0, 1, 2]⟩ else none := by
  have hop := step_operator op a b
  rw [h] at hop
  have hin : 2 < (calculation op a b).length := by
    show 2 < 4
    decide
  exact (steps_calculation op a b).runFrom_of_ended hop hin budget

end Program

/-- **The operators are the arithmetic of 32-bit vectors.** On a machine without a limit a calculation
    returns the value that its operator has on the vectors of the operands, read as a signed integer.
    Only a quotient by zero has none, and then the run fails with an empty stack. A signed quotient is
    the integer one, and the least integer divided by -1 is itself. On integers of any size a division
    is the quotient of the absolute values, with its sign, and wrapped. -/
theorem Machine.run_calculation {machine : Machine} (hlimit : machine.limit = none) (op : BinaryOp)
    (a b : Int32) :
    (∀ z, op.onBits? a.toBitVec b.toBitVec = some z → ∀ budget, 3 < budget →
      machine.run (.calculation op a b) budget = some
        (⟨.result z.toInt, ⟨3, []⟩, [0, 1, 2, 3]⟩, { machine with ip := 3, stack := [] })) ∧
    (op.onBits? a.toBitVec b.toBitVec = none ↔ op = .div ∧ b = 0) ∧
    (op = .div ∧ b = 0 → ∀ budget, 2 < budget →
      machine.run (.calculation op a b) budget = some
        (⟨.fault { kind := .divisionByZero }, ⟨2, []⟩, [0, 1, 2]⟩,
          { machine with ip := 2, stack := [] })) ∧
    (b ≠ 0 → ¬ (a = Int32.minValue ∧ b = -1) → ∀ z,
      BinaryOp.div.onBits? a.toBitVec b.toBitVec = some z →
      ∀ q, z.toInt = q ↔ IsQuotient a.toInt b.toInt q) ∧
    BinaryOp.div.onBits? Int32.minValue.toBitVec (Int32.toBitVec (-1)) =
      some Int32.minValue.toBitVec ∧
    ∀ x y : Int, BinaryOp.div.apply x y =
      if y = 0 then .error { kind := .divisionByZero }
      else .ok (Word32.wrap (quotientOfAbs x y)) := by
  have hzero : b.toBitVec = 0 ↔ b = 0 := Int32.toBitVec_inj (b := 0)
  refine ⟨?_, ?_, ?_, ?_, by decide, BinaryOp.apply_div⟩
  · intro z hz budget hbudget
    rw [run, hlimit, Program.run_calculation_of_ok (BinaryOp.apply_of_onBits? hz), if_pos hbudget]
    rfl
  · rw [BinaryOp.onBits?_eq_none_iff, hzero]
  · rintro ⟨rfl, rfl⟩ budget hbudget
    have hfails : BinaryOp.div.apply a.toInt (0 : Int32).toInt =
        .error { kind := .divisionByZero } := rfl
    rw [run, hlimit, Program.run_calculation_of_error hfails, if_pos hbudget]
    rfl
  · intro hb hfits z hz q
    rw [BinaryOp.onBits?, if_neg (mt hzero.1 hb), Option.some.injEq] at hz
    subst hz
    exact BinaryOp.toInt_sdiv_iff hb hfits

/-- The quotient of -7 by 2 drops its half, on a machine that has been used before, and the quotient of
    5 by zero fails. -/
theorem Machine.run_calculation_of_quotients :
    BinaryOp.div.onBits? (Int32.toBitVec (-7)) (Int32.toBitVec 2) = some (-3) ∧
    run { ip := 9, stack := [⟨some "q", 1⟩] } (.calculation .div (-7) 2) 4 =
      some (⟨.result (-3), ⟨3, []⟩, [0, 1, 2, 3]⟩, { ip := 3 }) ∧
    IsQuotient (-7) 2 (-3) ∧
    run { ip := 9, stack := [⟨some "q", 1⟩] } (.calculation .div 5 0) 3 =
      some (⟨.fault { kind := .divisionByZero }, ⟨2, []⟩, [0, 1, 2]⟩, { ip := 2 }) := by
  have hz : BinaryOp.div.onBits? (Int32.toBitVec (-7)) (Int32.toBitVec 2) = some (-3) := by decide
  have hused : ({ ip := 9, stack := [⟨some "q", 1⟩] } : Machine).limit = none := rfl
  obtain ⟨hresult, -, -, hquotient, -⟩ := run_calculation hused .div (-7) 2
  obtain ⟨-, -, hfails, -⟩ := run_calculation hused .div 5 0
  exact ⟨hz, hresult (-3) hz 4 (by decide), (hquotient (by decide) (by decide) _ hz _).1 rfl,
    hfails ⟨rfl, rfl⟩ 3 (by decide)⟩

end StackVM
