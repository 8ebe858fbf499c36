import StackVM.Proofs.Route
import StackVM.Proofs.Visited

set_option autoImplicit false

/-! # Other ways to keep operands and variables

A memory model says what each instruction makes of a memory and where it sends the machine. It runs
programs by the pointer rules of the machine. When a relation between stacks and memories is kept by
every instruction that a run fetches, and both go the same way, the runs agree
(`MemoryModel.runFrom_agrees`). -/

namespace StackVM

/-- A way to keep operands and variables: what there is at first, and what each instruction makes of
    it. -/
structure MemoryModel (μ : Type) where
  initial : μ
  effect : Instr → μ → Control × μ

namespace MemoryModel

variable {μ : Type}

/-- A run in a memory model that has ended. -/
structure Report (μ : Type) where
  ending : Ending
  pc : Nat
  memory : μ
  path : List Nat

/-- The report of a run that went through one more place before. -/
def Report.after (pc : Nat) (report : Report μ) : Report μ :=
  { report with path := pc :: report.path }

/-- Runs a program from a place and a memory, through at most `budget` steps. -/
def runFrom (model : MemoryModel μ) (program : Program) : Nat → Nat → μ → Option (Report μ)
  | 0, _, _ => none
  | budget + 1, pc, memory =>
    match program[pc]? with
    | none => some ⟨.fault { kind := .invalidPointer }, pc, memory, []⟩
    | some instr =>
      let (control, after) := model.effect instr memory
      match control.route program.length pc with
      | .on target => (model.runFrom program budget target after).map (·.after pc)
      | .out ending place => some ⟨ending, place, after, [pc]⟩

/-- Runs a program from its beginning. -/
def run (model : MemoryModel μ) (program : Program) (budget : Nat) : Option (Report μ) :=
  model.runFrom program budget 0 model.initial

/-- A report of the machine and one of a model tell the same of the run, and what they leave is
    related. -/
structure Agrees (R : Stack → μ → Prop) (report : StackVM.Report) (other : Report μ) : Prop where
  ending : other.ending = report.ending
  pc : other.pc = report.final.pc
  path : other.path = report.path
  memory : R report.final.stack other.memory

/-- An instruction goes the same way on a stack and in a model, and keeps the relation. -/
def Matches (model : MemoryModel μ) (R : Stack → μ → Prop) (limit : Option Int) (instr : Instr)
    (s : Stack) (memory : μ) : Prop :=
  (model.effect instr memory).1 = (instr.effect limit s).control ∧
    R (instr.effect limit s).stack (model.effect instr memory).2

variable {model : MemoryModel μ} {R : Stack → μ → Prop} {program : Program} {limit : Option Int}

theorem Agrees.after {report : StackVM.Report} {other : Report μ} (h : Agrees R report other)
    (pc : Nat) : Agrees R (report.after pc) (other.after pc) :=
  ⟨h.ending, h.pc, congrArg (pc :: ·) h.path, h.memory⟩

theorem Agrees.map_after {a : Option StackVM.Report} {b : Option (Report μ)}
    (h : Option.Rel (Agrees R) a b) (pc : Nat) :
    Option.Rel (Agrees R) (a.map (·.after pc)) (b.map (·.after pc)) := by
  cases h with
  | none => exact .none
  | some h => exact .some (h.after pc)

/-- **Matching instructions make agreeing runs.** If every instruction that a run fetches matches in
    the model, the run ends in the model exactly when it ends on the machine, and alike. -/
theorem runFrom_agrees {budget : Nat} {start : Config} {memory : μ} (hR : R start.stack memory)
    (hmatch : ∀ config ∈ program.visited limit budget start, ∀ instr memory,
      program[config.pc]? = some instr → R config.stack memory →
        model.Matches R limit instr config.stack memory) :
    Option.Rel (Agrees R) (program.runFrom limit budget start)
      (model.runFrom program budget start.pc memory) := by
  induction budget generalizing start memory with
  | zero => exact .none
  | succ budget ih =>
    have hhere := hmatch start (by simp [Program.visited])
    unfold Program.runFrom runFrom
    cases hfetch : program[start.pc]? with
    | none =>
      have hout : ¬ start.pc < program.length := by
        simpa using List.getElem?_eq_none_iff.1 hfetch
      simp only [Program.step_of_not_fetch hfetch, if_neg hout]
      exact .some ⟨rfl, rfl, rfl, hR⟩
    | some instr =>
      have hin : start.pc < program.length := (List.getElem?_eq_some_iff.1 hfetch).1
      obtain ⟨hcontrol, hafter⟩ := hhere instr memory hfetch hR
      have hstep : program.step limit start = _ := Program.step_of_fetch hfetch
      simp only [hcontrol]
      -- both take one route, the machine with its stack and the model with its memory
      cases hroute : (instr.effect limit start.stack).control.route program.length start.pc with
      | out ending place =>
        simp only [hstep, hroute, Route.step, if_pos hin]
        exact .some ⟨rfl, rfl, rfl, hafter⟩
      | on target =>
        simp only [hroute, Route.step] at hstep
        simp only [hstep]
        refine Agrees.map_after (ih hafter fun config hconfig => hmatch config ?_) start.pc
        rw [Program.visited_of_running hstep]
        exact List.mem_cons_of_mem _ hconfig

/-- One stack for operands and variables, empty at first. -/
def ofEffect (effect : Instr → Stack → Effect) : MemoryModel Stack where
  initial := []
  effect instr s := ((effect instr s).control, (effect instr s).stack)

/-- The machine itself runs programs as a memory model does. -/
theorem ofEffect_agrees (program : Program) (limit : Option Int) (budget : Nat) :
    Option.Rel (Agrees (· = ·)) (program.run limit budget)
      ((ofEffect (Instr.effect limit)).run program budget) :=
  runFrom_agrees rfl fun _ _ _ _ _ hR => hR ▸ ⟨rfl, rfl⟩

end MemoryModel

end StackVM
