import Mathlib.Data.List.Basic
import StackVM.Proofs.Endings
import StackVM.Proofs.Steps

set_option autoImplicit false

/-! # What a run depends on

A run reads the instructions on its path and no others. The length of the program matters only to a
pointer that leaves it: wherever a run goes on to there is an instruction, so that another program
with the same instruction there contains the place too. Hence programs that agree along the path of
a run, and have the same length if it ends outside, run alike (`Machine.run_depends_on_path`). -/

namespace StackVM

/-! ## The length of the program -/

namespace Control

variable {control : Control} {length other pc : Nat} {s : Stack} {next final : Config}
  {ending : Ending}

/-- What goes on in one program goes on alike in any program that contains the place it comes to. -/
theorem route_step_of_running (h : (control.route length pc).step s = .running next)
    (hnext : next.pc < other) : (control.route other pc).step s = .running next := by
  cases control with
  | next | goto target =>
    obtain ⟨-, rfl⟩ := Route.step_enter_eq_running_iff.1 h
    exact Route.step_enter_eq_running_iff.2 ⟨hnext, rfl⟩
  | halt result | fail fault => cases h

/-- What ends in one program ends alike in any other, but for a pointer that leaves it. -/
theorem route_step_of_ended (h : (control.route length pc).step s = .ended ending final)
    (hlength : other = length ∨ ending ≠ .fault { kind := .invalidPointer }) :
    (control.route other pc).step s = .ended ending final := by
  rcases hlength with rfl | hending
  · exact h
  · cases control with
    | next | goto target => exact absurd (Route.step_enter_eq_ended_iff.1 h).2.1 hending
    | halt result | fail fault => exact h

end Control

/-! ## Programs that agree on a path -/

namespace Program

variable {p q : Program} {limit : Option Int} {start config next final : Config} {ending : Ending}
  {path : List Nat} {place : Nat}

theorem lt_length_of_agree (hagree : q[place]? = p[place]?) (h : place < p.length) :
    place < q.length := by
  rw [List.getElem?_eq_getElem h] at hagree
  exact (List.getElem?_eq_some_iff.1 hagree).1

theorem step_of_agree_of_running (hagree : q[config.pc]? = p[config.pc]?)
    (hnext : q[next.pc]? = p[next.pc]?) (h : p.step limit config = .running next) :
    q.step limit config = .running next := by
  have hin := lt_length_of_agree hnext (pc_lt_of_step h)
  cases hfetch : p[config.pc]? with
  | none =>
    rw [step_of_not_fetch hfetch] at h
    cases h
  | some instr =>
    rw [step_of_fetch hfetch] at h
    rw [step_of_fetch (hagree.trans hfetch)]
    exact Control.route_step_of_running h hin

theorem step_of_agree_of_ended (hagree : config.pc < p.length → q[config.pc]? = p[config.pc]?)
    (hlength : q.length = p.length ∨ ending ≠ .fault { kind := .invalidPointer })
    (h : p.step limit config = .ended ending final) :
    q.step limit config = .ended ending final ∧ (config.pc < q.length ↔ config.pc < p.length) := by
  cases hfetch : p[config.pc]? with
  | none =>
    -- nothing is fetched here, so the run ends outside and the lengths are equal
    have hout := List.getElem?_eq_none_iff.1 hfetch
    rw [step_of_not_fetch hfetch, Step.ended.injEq] at h
    have hsame : q.length = p.length := hlength.resolve_right fun hne => hne h.1.symm
    have hfetch' : q[config.pc]? = none := List.getElem?_eq_none_iff.2 (hsame ▸ hout)
    rw [step_of_not_fetch hfetch', Step.ended.injEq]
    exact ⟨h, by rw [hsame]⟩
  | some instr =>
    have hin := (List.getElem?_eq_some_iff.1 hfetch).1
    rw [step_of_fetch hfetch] at h
    rw [step_of_fetch ((hagree hin).trans hfetch)]
    exact ⟨Control.route_step_of_ended h hlength,
      iff_of_true (lt_length_of_agree (hagree hin) hin) hin⟩

/-- A run that begins in the program executes the instruction it begins at. -/
theorem mem_path_of_runFrom {budget : Nat} {report : Report} (hin : start.pc < p.length)
    (h : p.runFrom limit budget start = some report) : start.pc ∈ report.path := by
  cases budget with
  | zero => cases h
  | succ budget =>
    rw [path_of_runFrom h, visited, List.map_cons, List.filter_cons, if_pos (decide_eq_true hin)]
    exact List.mem_cons_self

theorem runFrom_of_agree {budget : Nat} {report : Report}
    (h : p.runFrom limit budget start = some report)
    (hagree : ∀ place ∈ report.path, q[place]? = p[place]?)
    (hlength : q.length = p.length ∨ report.ending ≠ .fault { kind := .invalidPointer }) :
    q.runFrom limit budget start = some report := by
  induction budget, start, report, h using runFrom_induction with
  | ended budget start ending final hstep =>
    have hmem := fun hin =>
      hagree start.pc (mem_path_of_runFrom hin (runFrom_of_ended hstep budget))
    obtain ⟨hstep', hin⟩ := step_of_agree_of_ended hmem hlength hstep
    rw [runFrom_of_ended hstep']
    simp only [hin]
  | running budget start next rest hstep hrest ih =>
    obtain ⟨hhere, hafter⟩ := List.forall_mem_cons.1 hagree
    have hnext := hafter next.pc (mem_path_of_runFrom (pc_lt_of_step hstep) hrest)
    have hstep' := step_of_agree_of_running hhere hnext hstep
    exact runFrom_of_running hstep' (ih hafter hlength)

/-- Programs that agree on a path show the same lines for it. -/
theorem trace_of_agree (hagree : ∀ place ∈ path, q[place]? = p[place]?) :
    q.trace path = p.trace path := by
  refine List.filterMap_congr fun place hplace => ?_
  rw [line?, line?, hagree place hplace]

end Program

/-- **A run depends only on the instructions it executes.** Another program with the same
    instructions at these places runs to the same report and writes the same lines, provided that it
    has the same length if the run ends by an invalid pointer. So if it does not, instructions added
    behind the program change nothing. -/
theorem Machine.run_depends_on_path {machine after : Machine} {p : Program} {budget : Nat}
    {report : Report} (h : machine.run p budget = some (report, after)) :
    (∀ q : Program, (∀ place ∈ report.path, q[place]? = p[place]?) →
      (q.length = p.length ∨ report.ending ≠ .fault { kind := .invalidPointer }) →
      machine.run q budget = some (report, after) ∧
        machine.lines q report = machine.lines p report) ∧
    (report.ending ≠ .fault { kind := .invalidPointer } → ∀ more : Program,
      machine.run (p ++ more) budget = some (report, after) ∧
        machine.lines (p ++ more) report = machine.lines p report) := by
  simp only [run, Option.map_eq_some_iff, Prod.mk.injEq] at h
  obtain ⟨report, hrun, rfl, rfl⟩ := h
  have hlocal : ∀ q : Program, (∀ place ∈ report.path, q[place]? = p[place]?) →
      (q.length = p.length ∨ report.ending ≠ .fault { kind := .invalidPointer }) →
      machine.run q budget = some (report,
        { machine with ip := report.final.pc, stack := report.final.stack }) ∧
        machine.lines q report = machine.lines p report := by
    intro q hagree hlength
    have hrun' : q.run machine.limit budget = some report :=
      Program.runFrom_of_agree hrun hagree hlength
    refine ⟨by rw [run, hrun', Option.map_some], ?_⟩
    rw [lines, lines, Program.trace_of_agree hagree]
  refine ⟨hlocal, fun hending more => hlocal (p ++ more) ?_ (Or.inr hending)⟩
  intro place hplace
  rw [Program.path_of_runFrom hrun, List.mem_filter, decide_eq_true_eq] at hplace
  exact List.getElem?_append_left hplace.2

/-- Loads a constant, jumps over a place and returns. -/
def Program.jumpOver : Program := [.const 6, .jump 3, .ret, .ret]

/-- What stands between the jump and its target makes no difference, nor does what stands behind. -/
theorem Machine.run_depends_on_path_of_jumpOver :
    run { ip := 9, limit := some 1, tracing := true } .jumpOver 7 =
      some (⟨.result 6, ⟨3, []⟩, [0, 1, 3]⟩, { ip := 3, limit := some 1, tracing := true }) ∧
    (∀ place ∈ [0, 1, 3],
      ([.const 6, .jump 3, .load 'x', .ret, .jump 0] : Program)[place]? =
        Program.jumpOver[place]?) ∧
    run { ip := 9, limit := some 1, tracing := true }
        [.const 6, .jump 3, .load 'x', .ret, .jump 0] 7 =
      some (⟨.result 6, ⟨3, []⟩, [0, 1, 3]⟩, { ip := 3, limit := some 1, tracing := true }) ∧
    run { ip := 9, limit := some 1, tracing := true } (Program.jumpOver ++ [.binary .div]) 7 =
      some (⟨.result 6, ⟨3, []⟩, [0, 1, 3]⟩, { ip := 3, limit := some 1, tracing := true }) := by
  have h : run { ip := 9, limit := some 1, tracing := true } .jumpOver 7 =
      some (⟨.result 6, ⟨3, []⟩, [0, 1, 3]⟩,
        { ip := 3, limit := some 1, tracing := true }) := by decide
  have hagree : ∀ place ∈ [0, 1, 3],
      ([.const 6, .jump 3, .load 'x', .ret, .jump 0] : Program)[place]? =
        Program.jumpOver[place]? := by decide
  obtain ⟨hlocal, hbehind⟩ := run_depends_on_path h
  exact ⟨h, hagree, (hlocal _ hagree (Or.inr (by decide))).1, (hbehind (by decide) _).1⟩

end StackVM
