import StackVM.Session

set_option autoImplicit false

/-! # The states a run goes through

`Program.visited` lists the configurations a run fetches at, whether the run ends or not. What holds
where a run starts and is kept by every step holds at all of them (`Program.visited_invariant`), and
a run that ends does so by a last step from one of them (`Program.exists_last_of_runFrom`).
`Machine.history` does for sessions what `Program.visited` does for runs: it has the state before
and after every action and, inside a run, the state at every fetch. -/

namespace StackVM

/-! ## Configurations of a run -/

namespace Program

/-- The configurations a run fetches at, in order, at most `budget` of them. -/
def visited (program : Program) (limit : Option Int) : Nat → Config → List Config
  | 0, _ => []
  | budget + 1, config =>
    config ::
      match program.step limit config with
      | .running next => program.visited limit budget next
      | .ended _ _ => []

variable {program : Program} {limit : Option Int}

theorem visited_of_running {budget : Nat} {config next : Config}
    (h : program.step limit config = .running next) :
    program.visited limit (budget + 1) config = config :: program.visited limit budget next := by
  simp only [visited, h]

theorem visited_of_ended {budget : Nat} {config final : Config} {ending : Ending}
    (h : program.step limit config = .ended ending final) :
    program.visited limit (budget + 1) config = [config] := by
  simp only [visited, h]

/-- What every step keeps holds wherever the run comes to. -/
theorem visited_invariant {P : Config → Prop}
    (hstep : ∀ config next, P config → program.step limit config = .running next → P next)
    {budget : Nat} {start : Config} (hstart : P start) :
    ∀ config ∈ program.visited limit budget start, P config := by
  induction budget generalizing start with
  | zero => simp [visited]
  | succ budget ih =>
    intro config hconfig
    cases hs : program.step limit start with
    | running next =>
      -- the rest of the list is the run from `next`, with one step less to go
      rw [visited_of_running hs, List.mem_cons] at hconfig
      rcases hconfig with rfl | hrest
      · exact hstart
      · exact ih (hstep start next hstart hs) config hrest
    | ended ending final =>
      rw [visited_of_ended hs, List.mem_singleton] at hconfig
      exact hconfig ▸ hstart

/-- A run that ends does so by a last step from a configuration it fetched at. -/
theorem exists_last_of_runFrom {budget : Nat} {start : Config} {report : Report}
    (h : program.runFrom limit budget start = some report) :
    ∃ last ∈ program.visited limit budget start,
      program.step limit last = .ended report.ending report.final := by
  induction budget, start, report, h using runFrom_induction with
  | ended budget start ending final hstep =>
    rw [visited_of_ended hstep]
    exact ⟨start, List.mem_singleton_self start, hstep⟩
  | running budget start next rest hstep _ ih =>
    obtain ⟨last, hlast, hend⟩ := ih
    rw [visited_of_running hstep]
    exact ⟨last, List.mem_cons_of_mem start hlast, hend⟩

end Program

/-! ## States of a session -/

/-- Whether the action overwrites the stack. -/
def Action.assignsStack : Action → Bool
  | .assignStack _ => true
  | _ => false

/-- Whether the action overwrites the limit. -/
def Action.assignsLimit : Action → Bool
  | .assignLimit _ => true
  | _ => false

namespace Machine

/-- The machine when a run of it is at a configuration. -/
def during (machine : Machine) (config : Config) : Machine :=
  { machine with ip := config.pc, stack := config.stack }

/-- The states inside an action: those a run fetches at. Only a run has any, and only when its
    program is built. -/
def inside (machine : Machine) (budget : Nat) : Action → List Machine
  | .run raws =>
    match Program.build raws with
    | .ok program => (program.visited machine.limit budget ⟨0, []⟩).map machine.during
    | .error _ => []
  | _ => []

/-- The states of a session: before it, inside each action and after each action. A run that does
    not end within the budget is the last action with states inside it, and has none after it. -/
def history (machine : Machine) (budget : Nat) : List Action → List Machine
  | [] => [machine]
  | action :: rest =>
    machine :: (machine.inside budget action ++
      match machine.act budget action with
      | some outcome => outcome.machine.history budget rest
      | none => [])

theorem mem_history_cons {machine state : Machine} {budget : Nat} {action : Action}
    {rest : List Action} :
    state ∈ machine.history budget (action :: rest) ↔
      state = machine ∨ state ∈ machine.inside budget action ∨
        ∃ outcome, machine.act budget action = some outcome ∧
          state ∈ outcome.machine.history budget rest := by
  cases h : machine.act budget action <;> simp [history, h]

theorem self_mem_history (machine : Machine) (budget : Nat) (actions : List Action) :
    machine ∈ machine.history budget actions := by
  cases actions <;> simp [history]

/-- The pointer and the stack an answer shows are those of a state of the session. -/
theorem exists_state_of_answer {machine last : Machine} {budget : Nat} {actions : List Action}
    {answers : List Answer} (h : machine.session budget actions = some (answers, last)) :
    ∀ answer ∈ answers, ∃ state ∈ machine.history budget actions,
      answer.ip = state.ip ∧ answer.stack = state.stack := by
  induction actions generalizing machine answers with
  | nil =>
    simp only [session, Option.some.injEq, Prod.mk.injEq] at h
    simp [← h.1]
  | cons action rest ih =>
    simp only [session, Option.bind_eq_bind, Option.bind_eq_some_iff, Option.pure_def,
      Option.some.injEq, Prod.mk.injEq] at h
    obtain ⟨outcome, hact, ⟨others, _⟩, hrest, rfl, rfl⟩ := h
    intro answer hanswer
    rcases List.mem_cons.1 hanswer with rfl | hother
    · exact ⟨outcome.machine, mem_history_cons.2 (Or.inr (Or.inr
        ⟨outcome, hact, self_mem_history _ _ _⟩)), rfl, rfl⟩
    · obtain ⟨state, hstate, heq⟩ := ih hrest answer hother
      exact ⟨state, mem_history_cons.2 (Or.inr (Or.inr ⟨outcome, hact, hstate⟩)), heq⟩

end Machine

end StackVM
