import StackVM.Effect
import StackVM.Listing

set_option autoImplicit false

/-! # Running a program

A run goes from configuration to configuration until an instruction ends it, or the pointer leaves
the program. Programs need not end, so a run is given a budget of instructions; a run that ends
within its budget does the same under any greater one (`Program.runFrom_mono`). -/

namespace StackVM

/-- The pointer and the stack during a run. -/
structure Config where
  pc : Nat
  stack : Stack
  deriving DecidableEq, Repr

/-- How a run ends. -/
inductive Ending where
  | result (value : Int)
  | fault (fault : Fault)
  deriving DecidableEq, Repr

/-- What comes after an instruction. -/
inductive Step where
  | running (config : Config)
  | ended (ending : Ending) (config : Config)
  deriving DecidableEq, Repr

/-- Moves the pointer, which faults when it leaves a program of `length` instructions. The pointer
    stays where it was moved. -/
def Step.enter (length target : Nat) (s : Stack) : Step :=
  if target < length then .running ⟨target, s⟩
  else .ended (.fault { kind := .invalidPointer }) ⟨target, s⟩

/-- Goes on after an instruction at `pc` in a program of `length` instructions. -/
def Effect.resume (length pc : Nat) (effect : Effect) : Step :=
  match effect.control with
  | .next => .enter length (pc + 1) effect.stack
  | .goto target => .enter length target effect.stack
  | .halt result => .ended (.result result) ⟨pc, effect.stack⟩
  | .fail fault => .ended (.fault fault) ⟨pc, effect.stack⟩

/-- A run that has ended: its result or fault, the configuration it ended in and the places of the
    instructions it executed, in order. -/
structure Report where
  ending : Ending
  final : Config
  path : List Nat
  deriving DecidableEq, Repr

/-- The report of a run that went through one more place before. -/
def Report.after (pc : Nat) (report : Report) : Report :=
  { report with path := pc :: report.path }

namespace Program

/-- Executes the instruction that the pointer is at. -/
def step (program : Program) (limit : Option Int) (config : Config) : Step :=
  match program[config.pc]? with
  | some instr => (instr.effect limit config.stack).resume program.length config.pc
  | none => .ended (.fault { kind := .invalidPointer }) config

/-- Runs a program from a configuration, through at most `budget` steps. A step outside the program
    executes nothing, so it leaves no place on the path. -/
def runFrom (program : Program) (limit : Option Int) : Nat → Config → Option Report
  | 0, _ => none
  | budget + 1, config =>
    match program.step limit config with
    | .running next => (program.runFrom limit budget next).map (·.after config.pc)
    | .ended ending final =>
      some ⟨ending, final, if config.pc < program.length then [config.pc] else []⟩

/-- Runs a program from its beginning, with an empty stack. -/
def run (program : Program) (limit : Option Int) (budget : Nat) : Option Report :=
  program.runFrom limit budget ⟨0, []⟩

/-- The lines of the instructions on a path. -/
def trace (program : Program) (path : List Nat) : List String :=
  path.filterMap program.line?

variable {program : Program} {limit : Option Int}

theorem runFrom_of_running {budget : Nat} {config next : Config} {rest : Report}
    (hstep : program.step limit config = .running next)
    (hrest : program.runFrom limit budget next = some rest) :
    program.runFrom limit (budget + 1) config = some (rest.after config.pc) := by
  simp only [runFrom, hstep, hrest, Option.map_some]

theorem runFrom_of_ended {config final : Config} {ending : Ending}
    (hstep : program.step limit config = .ended ending final) (budget : Nat) :
    program.runFrom limit (budget + 1) config =
      some ⟨ending, final, if config.pc < program.length then [config.pc] else []⟩ := by
  simp only [runFrom, hstep]

/-- Induction over a run that ends: it is the step that ends it, or a step with such a run behind it. -/
@[elab_as_elim]
theorem runFrom_induction
    {motive : ∀ (budget : Nat) (config : Config) (report : Report),
      program.runFrom limit budget config = some report → Prop}
    (ended : ∀ (budget : Nat) (config : Config) (ending : Ending) (final : Config)
      (hstep : program.step limit config = .ended ending final),
      motive (budget + 1) config _ (runFrom_of_ended hstep budget))
    (running : ∀ (budget : Nat) (config next : Config) (rest : Report)
      (hstep : program.step limit config = .running next)
      (hrest : program.runFrom limit budget next = some rest),
      motive budget next rest hrest →
        motive (budget + 1) config (rest.after config.pc) (runFrom_of_running hstep hrest))
    (budget : Nat) (config : Config) (report : Report)
    (h : program.runFrom limit budget config = some report) : motive budget config report h := by
  induction budget generalizing config report with
  | zero => simp [runFrom] at h
  | succ budget ih =>
    cases hs : program.step limit config with
    | ended ending final =>
      obtain rfl := Option.some.inj ((runFrom_of_ended hs budget).symm.trans h)
      exact ended budget config ending final hs
    | running next =>
      obtain ⟨rest, hrest, rfl⟩ : ∃ rest, program.runFrom limit budget next = some rest ∧
          rest.after config.pc = report := by
        simpa only [runFrom, hs, Option.map_eq_some_iff] using h
      exact running budget config next rest hs hrest (ih next rest hrest)

/-- A greater budget changes nothing about a run that ends. -/
theorem runFrom_mono {m n : Nat} (hmn : m ≤ n) {config : Config} {report : Report}
    (h : program.runFrom limit m config = some report) :
    program.runFrom limit n config = some report := by
  induction m, config, report, h using runFrom_induction generalizing n with
  | ended m config ending final hstep =>
    obtain ⟨n, rfl⟩ : ∃ k, n = k + 1 := ⟨n - 1, by omega⟩
    exact runFrom_of_ended hstep n
  | running m config next rest hstep _ ih =>
    obtain ⟨n, rfl⟩ : ∃ k, n = k + 1 := ⟨n - 1, by omega⟩
    exact runFrom_of_running hstep (ih (by omega))

/-- Two runs from one configuration that end do so alike. -/
theorem runFrom_unique {m n : Nat} {config : Config} {r₁ r₂ : Report}
    (h₁ : program.runFrom limit m config = some r₁)
    (h₂ : program.runFrom limit n config = some r₂) : r₁ = r₂ := by
  have h₁' := runFrom_mono (Nat.le_max_left m n) h₁
  have h₂' := runFrom_mono (Nat.le_max_right m n) h₂
  exact Option.some.inj (h₁'.symm.trans h₂')

end Program

end StackVM
