import Mathlib.Data.List.Perm.Subperm
import StackVM.Proofs.ControlFlow

set_option autoImplicit false

/-! # Programs without backward jumps

A run ends when some measure goes down with every step (`Program.exists_runFrom_of_measure`). When
all jumps of a program go forward, so does every edge, and the places that are left are such a
measure. The run is then over after no more instructions than the program has, and it executes none
of them twice (`Machine.run_forward`). -/

namespace StackVM

namespace Program

/-- Every jump of the program goes to a place behind it. -/
def Forward (program : Program) : Prop :=
  ∀ place (h : place < program.length), ∀ target ∈ program[place].target?, place < target

instance (program : Program) : Decidable program.Forward :=
  inferInstanceAs (Decidable (∀ place (h : place < program.length),
    ∀ target ∈ program[place].target?, place < target))

variable {program : Program} {limit : Option Int}

/-- A run ends if every step that goes on lowers a measure: the measure bounds the steps. -/
theorem exists_runFrom_of_measure {measure : Config → Nat}
    (h : ∀ config next, program.step limit config = .running next → measure next < measure config)
    (start : Config) : ∃ report, program.runFrom limit (measure start + 1) start = some report := by
  induction hm : measure start using Nat.strong_induction_on generalizing start with
  | _ m ih =>
    cases hs : program.step limit start with
    | ended ending final => exact ⟨_, runFrom_of_ended hs m⟩
    | running next =>
      have hless : measure next < m := hm ▸ h start next hs
      obtain ⟨rest, hrest⟩ := ih _ hless next rfl
      have henough : program.runFrom limit m next = some rest := runFrom_mono hless hrest
      exact ⟨rest.after start.pc, runFrom_of_running hs henough⟩

namespace Forward

theorem lt_of_edge (h : program.Forward) {source target : Nat}
    (hedge : program.Edge source target) : source < target := by
  obtain ⟨instr, hfetch, hflow⟩ := hedge
  obtain ⟨hin, rfl⟩ := List.getElem?_eq_some_iff.1 hfetch
  rcases hflow with ⟨-, rfl⟩ | htarget
  · exact Nat.lt_succ_self source
  · exact h source hin target htarget

/-- The pointer only grows while the run goes on. -/
theorem pc_lt_of_step (h : program.Forward) {config next : Config}
    (hstep : program.step limit config = .running next) : config.pc < next.pc :=
  h.lt_of_edge (edge_of_running hstep)

/-- The places that are left bound the steps. The empty program takes one step, in which it fetches
    nothing. -/
theorem exists_run (h : program.Forward) (limit : Option Int) :
    ∃ report, program.run limit (max 1 program.length) = some report := by
  have hlowers : ∀ config next, program.step limit config = .running next →
      program.length - 1 - next.pc < program.length - 1 - config.pc := by
    intro config next hstep
    have hgrows := h.pc_lt_of_step hstep
    have hin := Program.pc_lt_of_step hstep
    omega
  have hbudget : program.length - 1 - 0 + 1 = max 1 program.length := by omega
  rw [← hbudget]
  exact exists_runFrom_of_measure hlowers ⟨0, []⟩

theorem path_increasing (h : program.Forward) {budget : Nat} {report : Report}
    (hrun : program.run limit budget = some report) : report.path.Pairwise (· < ·) := by
  have hedges := (isPath_of_run hrun).edges
  exact List.isChain_iff_pairwise.1 (hedges.imp fun _ _ hedge => h.lt_of_edge hedge)

theorem length_path_le (h : program.Forward) {budget : Nat} {report : Report}
    (hrun : program.run limit budget = some report) : report.path.length ≤ program.length := by
  have hnodup : report.path.Nodup := (h.path_increasing hrun).imp Nat.ne_of_lt
  have hplaces : report.path ⊆ List.range program.length := by
    intro place hplace
    rw [path_of_runFrom hrun, List.mem_filter, decide_eq_true_eq] at hplace
    exact List.mem_range.2 hplace.2
  have hle := (List.subperm_of_subset hnodup hplaces).length_le
  rwa [List.length_range] at hle

end Forward

end Program

/-- **A program without backward jumps always ends**, with a result or a fault, whatever the machine
    held before and whatever its limit is. The run executes no more instructions than the program has,
    at places that only grow, so it executes none of them twice. -/
theorem Machine.run_forward {program : Program} (hforward : program.Forward) (machine : Machine) :
    ∃ report after,
      (∀ budget, max 1 program.length ≤ budget →
        machine.run program budget = some (report, after)) ∧
      report.path.length ≤ program.length ∧
      report.path.Pairwise (· < ·) ∧ report.path.Nodup := by
  obtain ⟨report, hrun⟩ := hforward.exists_run machine.limit
  have hincreasing := hforward.path_increasing hrun
  refine ⟨report, { machine with ip := report.final.pc, stack := report.final.stack }, ?_,
    hforward.length_path_le hrun, hincreasing, hincreasing.imp Nat.ne_of_lt⟩
  intro budget hbudget
  have henough : program.run machine.limit budget = some report :=
    Program.runFrom_mono hbudget hrun
  rw [run, henough, Option.map_some]

/-- Passes one jump by, takes another over a place and leaves the program by a third. -/
def Program.onlyForward : Program :=
  [.const 0, .jumpIf 7, .jump 4, .ret, .const 1, .jumpIf 9]

/-- The run of forward jumps, on a machine with one place that has been used before. -/
theorem Machine.run_forward_of_onlyForward :
    Program.onlyForward.Forward ∧
    ∃ report after,
      (∀ budget, 6 ≤ budget →
        run { ip := -3, stack := [⟨some "q", 7⟩, ⟨none, 1⟩], limit := some 1 } .onlyForward budget =
          some (report, after)) ∧
      report.path.length ≤ 6 ∧ report.path.Pairwise (· < ·) ∧ report.path.Nodup := by
  have hforward : Program.onlyForward.Forward := by decide
  exact ⟨hforward, run_forward hforward _⟩

end StackVM
