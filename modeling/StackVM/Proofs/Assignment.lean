import StackVM.Proofs.ExpressionCode

set_option autoImplicit false

/-! # Assignments

The code of an expression and a store behind it assign the value of the expression to a variable
(`Expr.perform_assignTo`). An assignment needs no more places than its expression, since a new variable
takes the place that the value had. A conditional jump behind the code of a comparison branches on the
comparison (`Program.Passes.branch`). -/

namespace StackVM

/-! ## Values of expressions -/

namespace Stack

/-- The stack after a value is written to a variable: in place if there is such a variable, and on top
    otherwise. -/
def write (name : String) (value : Int) (s : Stack) : Stack :=
  if s.holds name then s.assign name value else ⟨some name, value⟩ :: s

end Stack

namespace Expr

/-- The expression has the value on a stack. -/
def HasValue (s : Stack) (e : Expr) (value : Int) : Prop :=
  ∃ word, e.eval s.valuation = .ok word ∧ word.toInt = value

variable {limit : Option Int} {s : Stack} {a b e : Expr} {x y value : Int} {op : BinaryOp}

theorem hasValue_const (word : Int32) : HasValue s (.const word) word.toInt := ⟨word, rfl, rfl⟩

theorem hasValue_var {name : Char} (hlookup : s.lookup (String.singleton name) = some value)
    (hword : Word32.InRange value) : HasValue s (.var name) value := by
  refine ⟨Int32.ofInt value, ?_, Word32.toInt_ofInt_of_inRange hword⟩
  rw [eval_var_eq_ok_iff, Stack.valuation, hlookup]
  rfl

/-- The value of a node is what the machine makes of the values of its operands. -/
theorem hasValue_node (ha : HasValue s a x) (hb : HasValue s b y) (h : op.apply x y = .ok value) :
    HasValue s (.node op a b) value := by
  obtain ⟨left, hleft, rfl⟩ := ha
  obtain ⟨right, hright, rfl⟩ := hb
  rw [BinaryOp.apply_toInt] at h
  cases hop : op.onWords left right with
  | error fault =>
    rw [hop] at h
    cases h
  | ok word =>
    rw [hop] at h
    refine ⟨word, ?_, Except.ok.inj h⟩
    rw [eval_node_of_ok hright, hleft]
    exact hop

/-! ## The code of assignments -/

open Program

/-- With places for its depth the code of an expression puts its value on top. -/
theorem perform_code_of_hasValue (h : HasValue s e value)
    (hwords : ∀ cell ∈ s, Word32.InRange cell.value) (hplaces : s.fits limit e.depth = true) :
    perform limit e.code s = .ok (⟨none, value⟩ :: s) := by
  obtain ⟨word, heval, rfl⟩ := h
  have hwithin : s.Within limit := Stack.fits_zero_iff.1 (Stack.fits_mono (Nat.zero_le _) hplaces)
  rw [perform_code e hwithin hwords, outcome_of_eval heval, if_pos hplaces]

/-- A store that has a value to take writes it: the value leaves a place for a new variable. -/
theorem perform_store {name : Char} {cell : Cell} (hwithin : Stack.Within limit (cell :: s)) :
    perform limit [.store name] (cell :: s) = .ok (s.write (String.singleton name) cell.value) := by
  rw [perform_singleton]
  show (Effect.push limit (some (String.singleton name)) cell.value s).result = _
  unfold Stack.write
  by_cases hheld : s.holds (String.singleton name) = true
  · rw [Stack.effect_push_of_holds hheld, if_pos hheld]
    rfl
  · have habsent : ¬ Stack.Present (some (String.singleton name)) s :=
      mt Stack.present_some_iff.1 hheld
    rw [Stack.effect_push_of_place habsent hwithin.isFull_tail, if_neg hheld]
    rfl

/-- The code that assigns the value of an expression to a variable. -/
def assignTo (name : Char) (e : Expr) : Program := e.code ++ [.store name]

/-- **The code of an assignment writes the value of its expression**, with places for the depth of the
    expression. -/
theorem perform_assignTo {name : Char} (h : HasValue s e value)
    (hwords : ∀ cell ∈ s, Word32.InRange cell.value) (hplaces : s.fits limit e.depth = true) :
    perform limit (e.assignTo name) s = .ok (s.write (String.singleton name) value) := by
  have hwithin : Stack.Within limit (⟨none, value⟩ :: s) :=
    Stack.Within.cons_of_fits (Stack.fits_mono e.depth_pos hplaces)
  rw [assignTo, perform_append, perform_code_of_hasValue h hwords hplaces]
  exact perform_store hwithin

end Expr

/-! ## Branches -/

namespace Program

variable {program : Program} {limit : Option Int} {start : Config} {count : Nat} {s : Stack}
  {target : UInt32} {p : Prop} [Decidable p]

theorem step_jumpIf {pc : Nat} (hfetch : program[pc]? = some (.jumpIf target)) :
    program.step limit ⟨pc, ⟨none, BinaryOp.truth p⟩ :: s⟩ =
      .enter program.length (if p then target.toNat else pc + 1) s := by
  rw [step, hfetch]
  by_cases hp : p
  · simp [Instr.effect, Effect.resume, BinaryOp.truth, hp]
  · simp [Instr.effect, Effect.resume, BinaryOp.truth, hp]

/-- A conditional jump behind the code of a comparison goes where the comparison says. -/
theorem Passes.branch
    (h : program.Passes limit count start ⟨start.pc + count, ⟨none, BinaryOp.truth p⟩ :: s⟩)
    (hfetch : program[start.pc + count]? = some (.jumpIf target))
    (hin : (if p then target.toNat else start.pc + count + 1) < program.length) :
    program.Passes limit (count + 1) start
      ⟨if p then target.toNat else start.pc + count + 1, s⟩ := by
  obtain ⟨past, hsteps, hplaces⟩ := h
  have hstep : program.step limit ⟨start.pc + count, ⟨none, BinaryOp.truth p⟩ :: s⟩ =
      .running ⟨if p then target.toNat else start.pc + count + 1, s⟩ := by
    rw [step_jumpIf hfetch, Step.enter, if_pos hin]
  refine ⟨past ++ [⟨start.pc + count, ⟨none, BinaryOp.truth p⟩ :: s⟩], hsteps.tail hstep, ?_⟩
  rw [List.map_append, hplaces, List.map_singleton, List.range'_1_concat]

end Program

end StackVM
