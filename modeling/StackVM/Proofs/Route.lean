import StackVM.Run

set_option autoImplicit false

/-! # Pointer rules

An instruction settles two things apart from each other: its control tells the pointer where to go,
its effect on the stack is what the stack becomes. A step is the one carried out on the other
(`Program.step_of_fetch`), so a statement about either part needs no case analysis of the other. -/

namespace StackVM

/-- Where the pointer goes from an instruction: to a place of the program, or to the end of the run
    and the place it stays at. -/
inductive Route where
  | on (target : Nat)
  | out (ending : Ending) (place : Nat)
  deriving DecidableEq, Repr

namespace Route

/-- To a place, which ends the run when the place is not one of the program. -/
def enter (length target : Nat) : Route :=
  if target < length then .on target else .out (.fault { kind := .invalidPointer }) target

/-- The step along the route, with the stack as it has become. -/
def step (s : Stack) : Route → Step
  | .on target => .running ⟨target, s⟩
  | .out ending place => .ended ending ⟨place, s⟩

variable {length target : Nat} {s : Stack}

theorem step_enter (length target : Nat) (s : Stack) :
    (enter length target).step s = Step.enter length target s := by
  unfold enter Step.enter
  split <;> rfl

theorem step_enter_eq_running_iff {next : Config} :
    (enter length target).step s = .running next ↔ target < length ∧ next = ⟨target, s⟩ := by
  unfold enter
  by_cases h : target < length <;> simp [h, step, eq_comm]

theorem step_enter_eq_ended_iff {ending : Ending} {final : Config} :
    (enter length target).step s = .ended ending final ↔
      length ≤ target ∧ ending = .fault { kind := .invalidPointer } ∧ final = ⟨target, s⟩ := by
  unfold enter
  by_cases h : target < length
  · have h' : ¬ length ≤ target := by omega
    simp [h, h', step]
  · have h' : length ≤ target := by omega
    simp [h, h', step, eq_comm]

end Route

/-- The route from an instruction at `pc` in a program of `length` instructions. -/
def Control.route (length pc : Nat) : Control → Route
  | .next => .enter length (pc + 1)
  | .goto target => .enter length target
  | .halt result => .out (.result result) pc
  | .fail fault => .out (.fault fault) pc

theorem Effect.resume_eq_step (length pc : Nat) (effect : Effect) :
    effect.resume length pc = (effect.control.route length pc).step effect.stack := by
  unfold Effect.resume
  cases effect.control <;> simp only [Control.route, Route.step_enter] <;> rfl

/-! ## Steps of a program -/

/-- The configuration after a step, whether the run goes on or ends there. -/
def Step.config : Step → Config
  | .running config => config
  | .ended _ config => config

theorem Route.stack_step (s : Stack) (route : Route) : (route.step s).config.stack = s := by
  cases route <;> rfl

namespace Program

variable {program : Program} {limit : Option Int} {config : Config}

/-- A step inside the program goes where the instruction sends it, with the stack it makes. -/
theorem step_of_fetch {instr : Instr} (h : program[config.pc]? = some instr) :
    program.step limit config =
      ((instr.effect limit config.stack).control.route program.length config.pc).step
        (instr.effect limit config.stack).stack := by
  rw [step, h]
  exact Effect.resume_eq_step ..

/-- A step outside the program ends the run and changes nothing. -/
theorem step_of_not_fetch (h : program[config.pc]? = none) :
    program.step limit config = .ended (.fault { kind := .invalidPointer }) config := by
  rw [step, h]

end Program

end StackVM
