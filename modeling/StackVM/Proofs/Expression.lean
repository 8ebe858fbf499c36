import StackVM.Proofs.WordArithmetic

set_option autoImplicit false

/-! # Expressions

Expressions over 32-bit constants, variables and the operators of the machine, with their values. The
right operand is evaluated before the left one, and its error comes first. An expression that has a
value takes as many places of a stack as it is deep (`Expr.peak_of_eval`), one with an error may take
fewer. Polynomials may be evaluated on unbounded integers and wrapped at the end
(`Expr.exists_unwrapped_of_eval`). -/

namespace StackVM

/-- An expression over constants, variables and the operators of the machine. -/
inductive Expr where
  | const (value : Int32)
  | var (name : Char)
  | node (op : BinaryOp) (a b : Expr)
  deriving DecidableEq, Repr

namespace Expr

/-- How many places the code of an expression takes. -/
def depth : Expr → Nat
  | .const _ | .var _ => 1
  | .node _ a b => max b.depth (1 + a.depth)

/-- The value of an expression as a 32-bit word, or the first error of evaluating the right operand
    before the left one. -/
def eval (vars : Char → Option Int32) : Expr → Except Fault Int32
  | .const value => .ok value
  | .var x =>
    match vars x with
    | some value => .ok value
    | none => .error { kind := .unknownVariable, name := some (String.singleton x) }
  | .node op a b => do
    let right ← b.eval vars
    let left ← a.eval vars
    op.onWords left right

/-- The places that the code of an expression takes until its value is there or an error of its
    evaluation ends it. -/
def peak (vars : Char → Option Int32) : Expr → Nat
  | .const _ => 1
  | .var x => if (vars x).isSome then 1 else 0
  | .node _ a b =>
    match b.eval vars with
    | .ok _ => max (b.peak vars) (1 + a.peak vars)
    | .error _ => b.peak vars

/-- The only operators in the expression are sums, differences and products. -/
def IsPolynomial : Expr → Prop
  | .const _ | .var _ => True
  | .node op a b => op ∈ [BinaryOp.add, .sub, .mul] ∧ a.IsPolynomial ∧ b.IsPolynomial

/-- The value of an expression on unbounded integers, if it is a polynomial in variables that have
    values. -/
def unwrapped? (vars : Char → Option Int32) : Expr → Option Int
  | .const value => some value.toInt
  | .var x => (vars x).map Int32.toInt
  | .node op a b => do
    let f ← op.onIntegers?
    let left ← a.unwrapped? vars
    let right ← b.unwrapped? vars
    return f left right

variable {vars : Char → Option Int32} {op : BinaryOp} {a b : Expr} {e : Expr} {v : Int32}
  {fault : Fault}

theorem eval_node_of_error (h : b.eval vars = .error fault) :
    (node op a b).eval vars = .error fault := by
  rw [eval, h]
  rfl

theorem eval_node_of_ok (h : b.eval vars = .ok v) :
    (node op a b).eval vars = a.eval vars >>= fun left => op.onWords left v := by
  rw [eval, h]
  rfl

/-- A value of a node is that of its operator on values of its operands. -/
theorem exists_of_eval_node (h : (node op a b).eval vars = .ok v) :
    ∃ left right, a.eval vars = .ok left ∧ b.eval vars = .ok right ∧
      op.onWords left right = .ok v := by
  cases hb : b.eval vars with
  | error fault =>
    rw [eval_node_of_error hb] at h
    cases h
  | ok right =>
    rw [eval_node_of_ok hb] at h
    cases ha : a.eval vars with
    | error fault =>
      rw [ha] at h
      cases h
    | ok left =>
      rw [ha] at h
      exact ⟨left, right, rfl, rfl, h⟩

theorem eval_var_eq_ok_iff {x : Char} : (var x).eval vars = .ok v ↔ vars x = some v := by
  cases hx : vars x <;> simp [eval, hx]

theorem depth_pos (e : Expr) : 0 < e.depth := by
  induction e with
  | const value | var x => exact Nat.one_pos
  | node op a b _ ihb => exact Nat.lt_of_lt_of_le ihb (Nat.le_max_left ..)

theorem peak_node_of_error (h : b.eval vars = .error fault) :
    (node op a b).peak vars = b.peak vars := by
  rw [peak, h]

theorem peak_node_of_ok (h : b.eval vars = .ok v) :
    (node op a b).peak vars = max (b.peak vars) (1 + a.peak vars) := by
  rw [peak, h]

/-- An expression that has a value takes all the places it can. -/
theorem peak_of_eval (h : e.eval vars = .ok v) : e.peak vars = e.depth := by
  induction e generalizing v with
  | const value => rfl
  | var x =>
    rw [eval_var_eq_ok_iff] at h
    rw [peak, h]
    rfl
  | node op a b iha ihb =>
    obtain ⟨left, right, ha, hb, -⟩ := exists_of_eval_node h
    rw [peak_node_of_ok hb, ihb hb, iha ha, depth]

theorem peak_le_depth (vars : Char → Option Int32) (e : Expr) : e.peak vars ≤ e.depth := by
  induction e with
  | const value => exact Nat.le_refl 1
  | var x =>
    unfold peak
    split
    · exact Nat.le_refl 1
    · exact Nat.zero_le 1
  | node op a b iha ihb =>
    rw [depth]
    cases hb : b.eval vars with
    | error fault =>
      rw [peak_node_of_error hb]
      omega
    | ok right =>
      rw [peak_node_of_ok hb]
      omega

/-- **Wrapping can wait.** The value of a polynomial is the word of its value on unbounded integers. -/
theorem exists_unwrapped_of_eval (hpoly : e.IsPolynomial) (h : e.eval vars = .ok v) :
    ∃ t, e.unwrapped? vars = some t ∧ v = Int32.ofInt t := by
  induction e generalizing v with
  | const value =>
    cases h
    exact ⟨value.toInt, rfl, (Int32.ofInt_toInt value).symm⟩
  | var x =>
    rw [eval_var_eq_ok_iff] at h
    refine ⟨v.toInt, ?_, (Int32.ofInt_toInt v).symm⟩
    rw [unwrapped?, h]
    rfl
  | node op a b iha ihb =>
    obtain ⟨hop, hpa, hpb⟩ := hpoly
    obtain ⟨left, right, ha, hb, hvalue⟩ := exists_of_eval_node h
    obtain ⟨x, hx, rfl⟩ := iha hpa ha
    obtain ⟨y, hy, rfl⟩ := ihb hpb hb
    obtain ⟨f, hf⟩ : ∃ f, op.onIntegers? = some f := by
      simp only [List.mem_cons, List.not_mem_nil, or_false] at hop
      rcases hop with rfl | rfl | rfl <;> exact ⟨_, rfl⟩
    rw [BinaryOp.onWords_of_onIntegers hf, Except.ok.injEq] at hvalue
    refine ⟨f x y, ?_, hvalue.symm⟩
    rw [unwrapped?, hf, hx, hy]
    rfl

end Expr

end StackVM
