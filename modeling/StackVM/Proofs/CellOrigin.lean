import StackVM.Proofs.Endings
import StackVM.Proofs.Output

set_option autoImplicit false

/-! # Where the cells of a run come from

A run starts from the empty stack, so each of its cells is made by the program: the value is a 32-bit
integer, since constants are, operators give no other and stores and loads hand on what there is; the
name is one that a store of the program writes. Nothing the machine held before the run gets into it
(`Machine.run_closed`). -/

namespace StackVM

/-- A cell as a program makes it: its value is a 32-bit integer, and its name, if it has one, is a
    single character, the operand of a store of the program. -/
structure Cell.MadeBy (program : Program) (cell : Cell) : Prop where
  inRange : Word32.InRange cell.value
  stored : ∀ name, cell.name = some name → ∃ x, .store x ∈ program ∧ name = String.singleton x

/-- An operand is made by any program if its value is a 32-bit integer. -/
theorem Cell.madeBy_of_anonymous {program : Program} {value : Int} (h : Word32.InRange value) :
    Cell.MadeBy program ⟨none, value⟩ :=
  ⟨h, by simp⟩

namespace Instr

variable {program : Program} {instr : Instr} {limit : Option Int} {s : Stack}

/-- What an instruction of the program pushes makes a cell of the program, if those it is given are
    such. -/
theorem madeBy_of_output {name : Option String} {value : Int} (hinstr : instr ∈ program)
    (hs : ∀ cell ∈ s, cell.MadeBy program) (h : instr.output s = .push name value) :
    Cell.MadeBy program ⟨name, value⟩ := by
  cases instr with
  | const v =>
    cases h
    exact Cell.madeBy_of_anonymous (Word32.inRange_toInt v)
  | store x =>
    cases s with
    | nil => simp [output] at h
    | cons cell s =>
      cases h
      refine ⟨(hs cell List.mem_cons_self).inRange, ?_⟩
      rintro name ⟨⟩
      exact ⟨x, hinstr, rfl⟩
  | load x =>
    cases hx : s.lookup (String.singleton x) with
    | none => simp [output, hx] at h
    | some v =>
      simp only [output, hx, Output.push.injEq] at h
      obtain ⟨rfl, rfl⟩ := h
      exact Cell.madeBy_of_anonymous (hs _ (Stack.mem_of_lookup hx)).inRange
  | binary op =>
    rcases s with _ | ⟨a, _ | ⟨b, s⟩⟩
    · simp [output] at h
    · simp [output] at h
    · cases hop : op.apply a.value b.value with
      | error fault => simp [output, hop] at h
      | ok v =>
        simp only [output, hop, Output.push.injEq] at h
        obtain ⟨rfl, rfl⟩ := h
        exact Cell.madeBy_of_anonymous (BinaryOp.inRange_of_apply hop)
  | jumpIf target | ret => cases s <;> simp [output] at h
  | jump target => simp [output] at h

/-- An instruction of the program leaves cells of the program only. -/
theorem madeBy_of_effect (hinstr : instr ∈ program) (hs : ∀ cell ∈ s, cell.MadeBy program) :
    ∀ cell ∈ (instr.effect limit s).stack, cell.MadeBy program := by
  intro cell hcell
  rcases mem_effect hcell with hpushed | ⟨hkept, -⟩
  · exact madeBy_of_output hinstr hs hpushed
  · exact hs cell hkept

end Instr

namespace Program

variable {program : Program} {limit : Option Int} {config : Config}

/-- A step leaves cells of the program only, whether the run goes on or ends. -/
theorem madeBy_of_step (h : ∀ cell ∈ config.stack, cell.MadeBy program) :
    ∀ cell ∈ (program.step limit config).config.stack, cell.MadeBy program := by
  cases hfetch : program[config.pc]? with
  | none =>
    rw [stack_step_of_not_fetch hfetch]
    exact h
  | some instr =>
    rw [stack_step_of_fetch hfetch]
    exact Instr.madeBy_of_effect (List.mem_of_getElem? hfetch) h

theorem madeBy_of_visited {budget : Nat} :
    ∀ config ∈ program.visited limit budget ⟨0, []⟩, ∀ cell ∈ config.stack,
      cell.MadeBy program := by
  refine visited_invariant (fun config next hconfig hstep => ?_) (by simp)
  have hnext : ∀ cell ∈ (program.step limit config).config.stack, cell.MadeBy program :=
    madeBy_of_step hconfig
  rwa [hstep] at hnext

/-- A step that ends the run with a result ends it with the value of a cell. -/
theorem mem_of_step_result {value : Int} {final : Config}
    (h : program.step limit config = .ended (.result value) final) :
    ∃ cell ∈ config.stack, cell.value = value := by
  have hlast := last_of_step h
  have hret : program[config.pc]? = some .ret := by
    rw [← hlast.pc_eq (by simp)]
    exact hlast.eq_ret
  rw [step_of_fetch hret] at h
  cases hs : config.stack with
  | nil =>
    rw [hs] at h
    cases h
  | cons cell s =>
    rw [hs] at h
    cases h
    exact ⟨cell, List.mem_cons_self, rfl⟩

end Program

/-- **Runs stay within 32-bit words and the names of their program.** Wherever a run fetches and where
    it ends, with a result or a fault, every cell is made by the program, whatever the machine held
    before; and a result is a 32-bit integer. -/
theorem Machine.run_closed (machine : Machine) (program : Program) (budget : Nat) :
    (∀ config ∈ program.visited machine.limit budget ⟨0, []⟩, ∀ cell ∈ config.stack,
      cell.MadeBy program) ∧
    ∀ report after, machine.run program budget = some (report, after) →
      (∀ cell ∈ after.stack, cell.MadeBy program) ∧
      ∀ value, report.ending = .result value → Word32.InRange value := by
  refine ⟨Program.madeBy_of_visited, ?_⟩
  intro report after h
  simp only [run, Option.map_eq_some_iff, Prod.mk.injEq] at h
  obtain ⟨report, hrun, rfl, rfl⟩ := h
  obtain ⟨last, hlast, hend⟩ := Program.exists_last_of_runFrom hrun
  have hcells := Program.madeBy_of_visited last hlast
  constructor
  · have hfinal : ∀ cell ∈ (program.step machine.limit last).config.stack, cell.MadeBy program :=
      Program.madeBy_of_step hcells
    rwa [hend] at hfinal
  · intro value hvalue
    rw [hvalue] at hend
    obtain ⟨cell, hcell, rfl⟩ := Program.mem_of_step_result hend
    exact (hcells cell hcell).inRange

/-- The successor of the greatest 32-bit integer, handed on through a variable. -/
def Program.wrappedSuccessor : Program :=
  [.const 1, .const 0x7fffffff, .binary .add, .store 'x', .load 'x', .ret]

/-- On a machine left with a huge value under a long name, the successor is the least integer, as a
    cell of the variable and as the result. -/
theorem Machine.run_closed_of_wrappedSuccessor :
    ⟨4, [⟨some "x", -0x80000000⟩]⟩ ∈ Program.wrappedSuccessor.visited none 9 ⟨0, []⟩ ∧
    (∀ cell ∈ [(⟨some "x", -0x80000000⟩ : Cell)], cell.MadeBy Program.wrappedSuccessor) ∧
    run { ip := 7, stack := [⟨some "long", 0x1000000000000⟩] } Program.wrappedSuccessor 9 =
      some (⟨.result (-0x80000000), ⟨5, [⟨some "x", -0x80000000⟩]⟩, [0, 1, 2, 3, 4, 5]⟩,
        { ip := 5, stack := [⟨some "x", -0x80000000⟩] }) ∧
    Word32.InRange (-0x80000000) := by
  have hclosed := run_closed { ip := 7, stack := [⟨some "long", 0x1000000000000⟩] }
    Program.wrappedSuccessor 9
  have hvisited : ⟨4, [⟨some "x", -0x80000000⟩]⟩ ∈
      Program.wrappedSuccessor.visited none 9 ⟨0, []⟩ := by decide
  have hrun : run { ip := 7, stack := [⟨some "long", 0x1000000000000⟩] } Program.wrappedSuccessor 9 =
      some (⟨.result (-0x80000000), ⟨5, [⟨some "x", -0x80000000⟩]⟩, [0, 1, 2, 3, 4, 5]⟩,
        { ip := 5, stack := [⟨some "x", -0x80000000⟩] }) := by decide
  exact ⟨hvisited, hclosed.1 _ hvisited, hrun, (hclosed.2 _ _ hrun).2 _ rfl⟩

end StackVM
