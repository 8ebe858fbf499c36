import StackVM.Proofs.Endings
import StackVM.Proofs.Steps

set_option autoImplicit false

/-! # Straight-line code

An instruction that pushes goes on to the following place unless it fails, so a block of such
instructions is a function of the stack (`Program.perform`), wherever in a program it stands. A run that
comes to the block carries this function out, place after place (`Program.executes_perform`). -/

namespace StackVM

/-- The stack that an effect leaves, unless it is a failure. -/
def Effect.result (effect : Effect) : Except Fault Stack :=
  match effect.control with
  | .fail fault => .error fault
  | .next | .goto _ | .halt _ => .ok effect.stack

namespace Program

/-- The stack that a block of instructions leaves when they are executed one after the other, or the
    fault of the first that fails. -/
def perform (limit : Option Int) (block : Program) (s : Stack) : Except Fault Stack :=
  block.foldlM (fun s instr => (instr.effect limit s).result) s

variable {limit : Option Int} {program before block after : Program} {instr : Instr}
  {start config : Config} {count : Nat} {s t : Stack} {fault : Fault}

theorem perform_cons :
    perform limit (instr :: block) s = (instr.effect limit s).result >>= perform limit block := rfl

theorem perform_append :
    perform limit (block ++ after) s = perform limit block s >>= perform limit after :=
  List.foldlM_append

theorem perform_append_of_ok {outcome : Except Fault Stack} (h : perform limit block s = .ok t)
    (hafter : perform limit after t = outcome) : perform limit (block ++ after) s = outcome := by
  rw [perform_append, h]
  exact hafter

theorem perform_singleton : perform limit [instr] s = (instr.effect limit s).result := by
  rw [perform_cons]
  cases (instr.effect limit s).result <;> rfl

/-! ## Passing a block and failing in it -/

/-- The run from `start` executes the instructions at `count` places, from its own on one after the
    other, and comes to `config`. -/
def Passes (program : Program) (limit : Option Int) (count : Nat) (start config : Config) : Prop :=
  ∃ past, program.Steps limit start past config ∧
    past.map Config.pc = List.range' start.pc count

/-- The run from `start` executes instructions from its own place on one after the other, until one of
    those at the first `count` places fails. -/
def FailsWithin (program : Program) (limit : Option Int) (count : Nat) (start : Config)
    (fault : Fault) : Prop :=
  ∃ past last final, program.Steps limit start past last ∧
    (past ++ [last]).map Config.pc = List.range' start.pc (past.length + 1) ∧
    past.length < count ∧ program.step limit last = .ended (.fault fault) final

/-- The run from `start` does at the `count` places from its own on what the outcome says: it passes
    them and leaves the stack, or fails there. -/
def Executes (program : Program) (limit : Option Int) (count : Nat) (start : Config) :
    Except Fault Stack → Prop
  | .ok t => program.Passes limit count start ⟨start.pc + count, t⟩
  | .error fault => program.FailsWithin limit count start fault

/-- An instruction executed before goes in front of what is passed. -/
theorem Passes.head (hstep : program.step limit start = .running ⟨start.pc + 1, t⟩)
    (h : program.Passes limit count ⟨start.pc + 1, t⟩ config) :
    program.Passes limit (count + 1) start config := by
  obtain ⟨past, hsteps, hplaces⟩ := h
  refine ⟨start :: past, hsteps.head hstep, ?_⟩
  rw [List.map_cons, hplaces, List.range'_succ]

/-- An instruction executed before goes in front of those up to the failure. -/
theorem FailsWithin.head (hstep : program.step limit start = .running ⟨start.pc + 1, t⟩)
    (h : program.FailsWithin limit count ⟨start.pc + 1, t⟩ fault) :
    program.FailsWithin limit (count + 1) start fault := by
  obtain ⟨past, last, final, hsteps, hplaces, hin, hend⟩ := h
  refine ⟨start :: past, last, final, hsteps.head hstep, ?_, Nat.succ_lt_succ hin, hend⟩
  rw [List.cons_append, List.map_cons, hplaces, List.length_cons]
  exact List.range'_succ.symm

theorem FailsWithin.here {final : Config}
    (hstep : program.step limit start = .ended (.fault fault) final) :
    program.FailsWithin limit (count + 1) start fault :=
  ⟨[], start, final, .refl, rfl, Nat.succ_pos count, hstep⟩

theorem Executes.head {outcome : Except Fault Stack}
    (hstep : program.step limit start = .running ⟨start.pc + 1, t⟩)
    (h : program.Executes limit count ⟨start.pc + 1, t⟩ outcome) :
    program.Executes limit (count + 1) start outcome := by
  cases outcome with
  | error fault => exact FailsWithin.head hstep h
  | ok u =>
    have hplace : start.pc + 1 + count = start.pc + (count + 1) := by omega
    rw [Executes, hplace] at h
    exact Passes.head hstep h

/-! ## Executing a block -/

/-- An instruction that pushes goes on to the following place of the program, or fails. -/
theorem step_of_pushes {pc : Nat} (limit : Option Int) (s : Stack)
    (hfetch : program[pc]? = some instr) (hpush : instr.pushes = true)
    (hin : pc + 1 < program.length) :
    (∃ t, (instr.effect limit s).result = .ok t ∧
      program.step limit ⟨pc, s⟩ = .running ⟨pc + 1, t⟩) ∨
    ∃ fault final, (instr.effect limit s).result = .error fault ∧
      program.step limit ⟨pc, s⟩ = .ended (.fault fault) final := by
  have hstep : program.step limit ⟨pc, s⟩ = _ := step_of_fetch hfetch
  rw [hstep]
  have hcourse := Instr.course_of_effect limit instr s
  generalize instr.effect limit s = effect at hcourse
  cases hcourse with
  | @next t =>
    left
    exact ⟨t, rfl, Route.step_enter_eq_running_iff.2 ⟨hin, rfl⟩⟩
  | @fail fault t hfail =>
    right
    exact ⟨fault, ⟨pc, t⟩, rfl, rfl⟩
  | goto htarget =>
    -- an instruction with a target does not push
    cases instr <;> simp [Instr.pushes, Instr.target?] at hpush htarget
  | halt hret =>
    subst hret
    simp [Instr.pushes] at hpush

/-- **A run carries out a block of instructions that push**, when it comes to the first of them and
    the program goes on after the last. -/
theorem executes_perform (hblock : ∀ instr ∈ block, instr.pushes = true) (hafter : after ≠ [])
    (s : Stack) :
    (before ++ block ++ after).Executes limit block.length ⟨before.length, s⟩
      (perform limit block s) := by
  induction block generalizing before s with
  | nil => exact ⟨[], .refl, rfl⟩
  | cons instr block ih =>
    obtain ⟨hinstr, hblock⟩ := List.forall_mem_cons.1 hblock
    have hfetch : (before ++ (instr :: block) ++ after)[before.length]? = some instr := by simp
    have hin : before.length + 1 < (before ++ (instr :: block) ++ after).length := by
      have := List.length_pos_iff.2 hafter
      simp only [List.length_append, List.length_cons]
      omega
    -- the rest of the block is one of the same program, behind one instruction more
    have hprogram : before ++ (instr :: block) ++ after = before ++ [instr] ++ block ++ after := by
      simp
    rw [perform_cons]
    rcases step_of_pushes limit s hfetch hinstr hin with
      ⟨t, hresult, hstep⟩ | ⟨fault, final, hresult, hstep⟩
    · rw [hresult]
      refine Executes.head hstep ?_
      have hrest := @ih (before ++ [instr]) hblock t
      rwa [← hprogram, List.length_append] at hrest
    · rw [hresult]
      exact FailsWithin.here hstep

end Program

end StackVM
