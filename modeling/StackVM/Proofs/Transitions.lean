import Mathlib.Computability.StateTransition
import StackVM.Machine
import StackVM.Proofs.Route

set_option autoImplicit false

/-! # Runs as a transition system

How a run ends, without a budget and without its path: the steps of a program are a transition
system in which an ended run has no next state, and `Program.eval` is what this system comes to
(`Program.mem_eval_iff`). When the steps of a program are matched by those of another one, which may
take several for one, both end alike (`Program.eval_map`). -/

namespace StackVM

open StateTransition

/-- The step with its configuration replaced. -/
def Step.map (f : Config → Config) : Step → Step
  | .running config => .running (f config)
  | .ended ending final => .ended ending (f final)

namespace Program

/-- The step after a step. There is none when the run has ended. -/
def next (program : Program) (limit : Option Int) : Step → Option Step
  | .running config => some (program.step limit config)
  | .ended _ _ => none

/-- The step that the run from a configuration ends with, if it ends. -/
def eval (program : Program) (limit : Option Int) (start : Config) : Part Step :=
  StateTransition.eval (program.next limit) (.running start)

variable {program : Program} {limit : Option Int} {start config final : Config} {ending : Ending}
  {s : Stack} {target : Nat} {step : Step}

theorem reaches_of_step (h : program.step limit config = step) :
    Reaches (program.next limit) (.running config) step :=
  .single (congrArg some h)

theorem eval_of_running {next : Config} (h : program.step limit config = .running next) :
    program.eval limit config = program.eval limit next :=
  reaches_eval (reaches_of_step h)

theorem mem_eval_of_ended (h : program.step limit config = .ended ending final) :
    step ∈ program.eval limit config ↔ step = .ended ending final := by
  have hlast : StateTransition.eval (program.next limit) (.running config) =
      StateTransition.eval (program.next limit) (.ended ending final) :=
    reaches_eval (reaches_of_step h)
  have hmem : .ended ending final ∈
      StateTransition.eval (program.next limit) (.ended ending final) :=
    mem_eval.2 ⟨.refl, rfl⟩
  rw [eval, hlast, Part.eq_some_iff.2 hmem, Part.mem_some_iff]

/-- Entering a place is the same as being there: a pointer outside the program ends the run at the
    next fetch as it does when it is checked at once. -/
theorem eval_enter :
    StateTransition.eval (program.next limit) (.enter program.length target s) =
      program.eval limit ⟨target, s⟩ := by
  unfold Step.enter
  split
  · rfl
  · next hout =>
    have hstep : program.step limit ⟨target, s⟩ =
        .ended (.fault { kind := .invalidPointer }) ⟨target, s⟩ :=
      step_of_not_fetch (List.getElem?_eq_none_iff.2 (Nat.le_of_not_lt hout))
    exact (reaches_eval (reaches_of_step hstep)).symm

theorem eval_of_enter (h : program.step limit config = .enter program.length target s) :
    program.eval limit config = program.eval limit ⟨target, s⟩ :=
  (reaches_eval (reaches_of_step h)).trans eval_enter

theorem exists_runFrom_of_mem_eval (h : .ended ending final ∈ program.eval limit start) :
    ∃ budget report, program.runFrom limit budget start = some report ∧
      report.ending = ending ∧ report.final = final := by
  -- an induction over the states that the system goes through, of which the running ones count
  refine evalInduction (C := fun step => ∀ config, step = .running config →
    ∃ budget report, program.runFrom limit budget config = some report ∧
      report.ending = ending ∧ report.final = final) h ?_ start rfl
  rintro _ hmem ih config rfl
  cases hs : program.step limit config with
  | running next =>
    obtain ⟨budget, report, hrun, hending, hfinal⟩ := ih _ (congrArg some hs) next rfl
    exact ⟨budget + 1, report.after config.pc, runFrom_of_running hs hrun, hending, hfinal⟩
  | ended ending' final' =>
    obtain ⟨rfl, rfl⟩ := Step.ended.inj ((mem_eval_of_ended hs).1 hmem)
    exact ⟨1, _, runFrom_of_ended hs 0, rfl, rfl⟩

theorem mem_eval_of_runFrom {budget : Nat} {report : Report}
    (h : program.runFrom limit budget start = some report) :
    .ended report.ending report.final ∈ program.eval limit start := by
  induction budget, start, report, h using runFrom_induction with
  | ended budget start ending final hstep => exact (mem_eval_of_ended hstep).2 rfl
  | running budget start next rest hstep _ ih =>
    rw [eval_of_running hstep]
    exact ih

/-- The transition system comes to an end just as the run does, whatever budget it takes. -/
theorem mem_eval_iff :
    .ended ending final ∈ program.eval limit start ↔
      ∃ budget report, program.runFrom limit budget start = some report ∧
        report.ending = ending ∧ report.final = final := by
  refine ⟨exists_runFrom_of_mem_eval, ?_⟩
  rintro ⟨budget, report, hrun, rfl, rfl⟩
  exact mem_eval_of_runFrom hrun

/-- **Matching steps make runs that end alike.** If from the image of every configuration the other
    program comes, in one step or more, to the image of what the step of the program makes of it,
    then its runs end with the images of the ends. -/
theorem eval_map {p q : Program} {limit limit' : Option Int} {f : Config → Config}
    (h : ∀ config, Reaches₁ (q.next limit') (.running (f config)) ((p.step limit config).map f))
    (start : Config) : q.eval limit' (f start) = (p.eval limit start).map (Step.map f) := by
  refine tr_eval' (p.next limit) (q.next limit') (Step.map f) (fun_respects.2 ?_) (.running start)
  intro step
  cases step with
  | running config => exact h config
  | ended ending final => rfl

end Program

namespace Machine

/-- The run of a program on a machine ends, and leaves this pointer and this stack. -/
def Ends (machine : Machine) (program : Program) (ending : Ending) (ip : Int) (stack : Stack) :
    Prop :=
  ∃ budget report after, machine.run program budget = some (report, after) ∧
    report.ending = ending ∧ after.ip = ip ∧ after.stack = stack

theorem ends_iff {machine : Machine} {program : Program} {ending : Ending} {ip : Int}
    {stack : Stack} :
    machine.Ends program ending ip stack ↔
      ∃ place : Nat, ip = place ∧
        .ended ending ⟨place, stack⟩ ∈ program.eval machine.limit ⟨0, []⟩ := by
  constructor
  · rintro ⟨budget, report, after, hrun, rfl, rfl, rfl⟩
    simp only [run, Option.map_eq_some_iff, Prod.mk.injEq] at hrun
    obtain ⟨report, hrun, rfl, rfl⟩ := hrun
    exact ⟨report.final.pc, rfl, Program.mem_eval_of_runFrom hrun⟩
  · rintro ⟨place, rfl, hmem⟩
    obtain ⟨budget, report, hrun, rfl, hfinal⟩ := Program.mem_eval_iff.1 hmem
    refine ⟨budget, report, { machine with ip := report.final.pc, stack := report.final.stack },
      ?_, rfl, ?_, ?_⟩
    · rw [run, Program.run, hrun, Option.map_some]
    · rw [hfinal]
    · rw [hfinal]

end Machine

end StackVM
