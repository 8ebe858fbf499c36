import StackVM.Proofs.StackInvariant

set_option autoImplicit false

/-! # How a run gets to a configuration

`program.Steps limit start past config` says that a run from `start` comes to `config` after it has
fetched at the configurations `past`, in this order: the list that `Program.visited` begins with
(`Program.steps_iff_visited`). A run that ends has come to a configuration from which the next step
ended it (`Program.exists_steps_of_runFrom`). -/

namespace StackVM

/-- The report of a run that went through other places before. -/
def Report.through (places : List Nat) (report : Report) : Report :=
  { report with path := places ++ report.path }

namespace Program

/-- The run from `start` comes to a configuration after it has fetched at those of the list. -/
inductive Steps (program : Program) (limit : Option Int) (start : Config) :
    List Config → Config → Prop
  | refl : Steps program limit start [] start
  | tail {past : List Config} {config next : Config} (hpast : Steps program limit start past config)
      (hstep : program.step limit config = .running next) :
      Steps program limit start (past ++ [config]) next

variable {program : Program} {limit : Option Int} {start config last : Config}
  {past : List Config}

namespace Steps

theorem trans {middle : Config} {later : List Config} (h₁ : program.Steps limit start past middle)
    (h₂ : program.Steps limit middle later config) :
    program.Steps limit start (past ++ later) config := by
  induction h₂ with
  | refl => simpa using h₁
  | tail _ hstep ih =>
    rw [← List.append_assoc]
    exact ih.tail hstep

theorem head {next : Config} (hstep : program.step limit start = .running next)
    (h : program.Steps limit next past config) :
    program.Steps limit start (start :: past) config :=
  (refl.tail hstep).trans h

/-- What every step keeps holds wherever the run comes to, also of what has been fetched before. -/
theorem invariant {P : List Config → Config → Prop} (hstart : P [] start)
    (hstep : ∀ past config next, P past config → program.step limit config = .running next →
      P (past ++ [config]) next)
    (h : program.Steps limit start past config) : P past config := by
  induction h with
  | refl => exact hstart
  | tail _ hnext ih => exact hstep _ _ _ ih hnext

/-- What holds of the empty stack and survives taking and pushing holds wherever the run comes to. -/
theorem stack_invariant {P : Stack → Prop} (hP : Stack.Invariant limit P)
    (h : program.Steps limit start past config) (hempty : start.stack = []) : P config.stack := by
  refine h.invariant (P := fun _ config => P config.stack) (hempty ▸ hP.nil) ?_
  intro _ config next hconfig hstep
  have hnext : P (program.step limit config).config.stack := hP.step program hconfig
  rwa [hstep] at hnext

/-- The list of fetches begins with those before a configuration and goes on with its own. -/
theorem visited_eq (h : program.Steps limit start past config) (budget : Nat) :
    program.visited limit (past.length + budget) start =
      past ++ program.visited limit budget config := by
  induction h generalizing budget with
  | refl => simp
  | @tail past config next _ hstep ih =>
    have hlength : (past ++ [config]).length + budget = past.length + (budget + 1) := by
      rw [List.length_append, List.length_singleton]
      omega
    rw [hlength, ih, visited_of_running hstep, List.append_assoc, List.singleton_append]

/-- The configuration that the run comes to stands in the list of fetches after those before it. -/
theorem getElem?_visited (h : program.Steps limit start past config) {budget : Nat}
    (hbudget : past.length < budget) :
    (program.visited limit budget start)[past.length]? = some config := by
  obtain ⟨rest, rfl⟩ : ∃ rest, budget = past.length + (rest + 1) :=
    ⟨budget - past.length - 1, by omega⟩
  rw [h.visited_eq, visited, List.getElem?_append_right (Nat.le_refl _), Nat.sub_self]
  rfl

end Steps

theorem visited_one (config : Config) : program.visited limit 1 config = [config] := by
  cases hs : program.step limit config with
  | running next => exact visited_of_running hs
  | ended ending final => exact visited_of_ended hs

/-- A list of fetches tells how the run came to each of them. -/
theorem steps_of_visited_eq {budget : Nat} {later : List Config}
    (h : program.visited limit budget start = past ++ config :: later) :
    program.Steps limit start past config := by
  induction past generalizing budget start with
  | nil =>
    cases budget with
    | zero => simp [visited] at h
    | succ budget =>
      rw [visited, List.nil_append, List.cons.injEq] at h
      exact h.1 ▸ .refl
  | cons first past ih =>
    cases budget with
    | zero => simp [visited] at h
    | succ budget =>
      cases hs : program.step limit start with
      | running next =>
        rw [visited_of_running hs, List.cons_append, List.cons.injEq] at h
        exact h.1 ▸ .head hs (ih h.2)
      | ended ending final =>
        -- nothing is fetched after the step that ends the run
        rw [visited_of_ended hs] at h
        simp at h

theorem steps_iff_visited :
    program.Steps limit start past config ↔
      program.visited limit (past.length + 1) start = past ++ [config] := by
  constructor
  · intro h
    rw [h.visited_eq, visited_one]
  · exact steps_of_visited_eq

theorem Steps.mem_visited (h : program.Steps limit start past config) :
    config ∈ program.visited limit (past.length + 1) start := by
  rw [steps_iff_visited.1 h]
  exact List.mem_append_right past (List.mem_singleton.2 rfl)

instance : Decidable (program.Steps limit start past config) :=
  decidable_of_iff _ steps_iff_visited.symm

/-! ## The steps of a run that ends -/

/-- A run that ends has stepped to a configuration from which the next step ended it. -/
theorem exists_steps_of_runFrom {budget : Nat} {report : Report}
    (h : program.runFrom limit budget start = some report) :
    ∃ past last, program.Steps limit start past last ∧
      program.step limit last = .ended report.ending report.final ∧
      program.visited limit budget start = past ++ [last] := by
  induction budget, start, report, h using runFrom_induction with
  | ended budget start ending final hstep =>
    exact ⟨[], start, .refl, hstep, visited_of_ended hstep⟩
  | running budget start next rest hstep _ ih =>
    obtain ⟨past, last, hsteps, hend, hvisited⟩ := ih
    refine ⟨start :: past, last, hsteps.head hstep, hend, ?_⟩
    rw [visited_of_running hstep, hvisited, List.cons_append]

/-- The only step of a run that ends it is the one it ends with. -/
theorem eq_of_ended_of_visited {budget : Nat} {report : Report} {ending : Ending} {final : Config}
    (h : program.runFrom limit budget start = some report)
    (hconfig : config ∈ program.visited limit budget start)
    (hstep : program.step limit config = .ended ending final) :
    report.ending = ending ∧ report.final = final := by
  induction budget, start, report, h using runFrom_induction with
  | ended budget start ending' final' hs =>
    rw [visited_of_ended hs, List.mem_singleton] at hconfig
    rw [hconfig, hs] at hstep
    exact Step.ended.inj hstep
  | running budget start next rest hs _ ih =>
    rw [visited_of_running hs, List.mem_cons] at hconfig
    rcases hconfig with rfl | hlater
    · rw [hs] at hstep
      cases hstep
    · exact ih hlater

/-- A step that goes on executes an instruction of the program. -/
theorem pc_lt_of_running {next : Config} (h : program.step limit config = .running next) :
    config.pc < program.length := by
  cases hfetch : program[config.pc]? with
  | some instr => exact (List.getElem?_eq_some_iff.1 hfetch).1
  | none =>
    rw [step_of_not_fetch hfetch] at h
    cases h

/-- The path of a run has the places of its fetches that are in the program. -/
theorem path_of_runFrom {budget : Nat} {report : Report}
    (h : program.runFrom limit budget start = some report) :
    report.path =
      ((program.visited limit budget start).map Config.pc).filter (· < program.length) := by
  induction budget, start, report, h using runFrom_induction with
  | ended budget start ending final hstep =>
    rw [visited_of_ended hstep]
    by_cases hin : start.pc < program.length <;> simp [hin]
  | running budget start next rest hstep _ ih =>
    have hin := decide_eq_true (pc_lt_of_running hstep)
    rw [visited_of_running hstep, List.map_cons, List.filter_cons, if_pos hin, ← ih]
    rfl

/-! ## The rest of a run -/

/-- The run from a configuration is what is left of the run that comes to it. -/
theorem Steps.runFrom_eq (h : program.Steps limit start past config) (budget : Nat) :
    program.runFrom limit (past.length + budget) start =
      (program.runFrom limit budget config).map (·.through (past.map Config.pc)) := by
  induction h generalizing budget with
  | refl =>
    rw [List.length_nil, Nat.zero_add]
    exact Option.map_id'.symm
  | @tail past config next _ hstep ih =>
    have hlength : (past ++ [config]).length + budget = past.length + (budget + 1) := by
      rw [List.length_append, List.length_singleton]
      omega
    rw [hlength, ih, runFrom, hstep, Option.map_map]
    congr 1
    funext report
    simp [Report.through, Report.after]

/-- A run that comes to its last step ends with just the budgets that are enough for all of them. -/
theorem Steps.runFrom_of_ended {ending : Ending} {final : Config}
    (h : program.Steps limit start past last) (hend : program.step limit last = .ended ending final)
    (hin : last.pc < program.length) (budget : Nat) :
    program.runFrom limit budget start =
      if past.length < budget then some ⟨ending, final, (past ++ [last]).map Config.pc⟩
      else none := by
  split
  · next henough =>
    obtain ⟨rest, rfl⟩ : ∃ rest, budget = past.length + (rest + 1) :=
      ⟨budget - past.length - 1, by omega⟩
    rw [h.runFrom_eq, Program.runFrom_of_ended hend, Option.map_some, Report.through, if_pos hin,
      List.map_append, List.map_singleton]
  · next hfew =>
    cases hrun : program.runFrom limit budget start with
    | none => rfl
    | some report =>
      -- the run would have ended before its last step
      have hlonger := runFrom_mono (Nat.le_of_not_lt hfew) hrun
      have hnone := h.runFrom_eq 0
      rw [Nat.add_zero, hlonger] at hnone
      cases hnone

end Program

end StackVM
