import StackVM.Proofs.Route
import StackVM.Proofs.Visited

set_option autoImplicit false

/-! # Invariants of the stack

An instruction changes the stack in two ways only: it takes cells from the top, and it pushes. A
property that survives both is therefore kept by every instruction, whether it succeeds or fails
halfway, by every run and by every action of a session that does not overwrite the stack. -/

namespace StackVM

/-! ## What a push does -/

namespace Stack

variable {limit : Option Int} {name : Option String} {value : Int} {s t : Stack}

/-- The name is that of a variable on the stack, so that a push writes it in place. -/
def Present (name : Option String) (s : Stack) : Prop := ∃ x, name = some x ∧ s.holds x = true

theorem present_some_iff {x : String} : Present (some x) s ↔ s.holds x = true := by simp [Present]

theorem push_of_holds {x : String} (h : s.holds x = true) :
    push limit (some x) value s = .ok (s.assign x value) := by
  simp [push, h]

theorem push_of_not_present (h : ¬ Present name s) :
    push limit name value s = s.append limit ⟨name, value⟩ := by
  cases name with
  | none => rfl
  | some x =>
    rw [present_some_iff] at h
    simp [push, h]

theorem append_eq_ok_iff {cell : Cell} :
    s.append limit cell = .ok t ↔ s.isFull limit = false ∧ t = cell :: s := by
  unfold append
  cases s.isFull limit <;> simp [eq_comm]

theorem append_eq_error_iff {cell : Cell} {fault : Fault} :
    s.append limit cell = .error fault ↔
      s.isFull limit = true ∧ fault = { kind := .stackOverflow } := by
  unfold append
  cases s.isFull limit <;> simp [eq_comm]

/-- A push that succeeds writes a variable in place, or puts a new cell on a stack with a place
    left. -/
theorem push_cases (h : push limit name value s = .ok t) :
    (∃ x, name = some x ∧ s.holds x = true ∧ t = s.assign x value) ∨
      (¬ Present name s ∧ s.isFull limit = false ∧ t = ⟨name, value⟩ :: s) := by
  by_cases hp : Present name s
  · obtain ⟨x, rfl, hx⟩ := hp
    rw [push_of_holds hx, Except.ok.injEq] at h
    exact Or.inl ⟨x, rfl, hx, h.symm⟩
  · rw [push_of_not_present hp, append_eq_ok_iff] at h
    exact Or.inr ⟨hp, h⟩

/-- The only failure of a push is that no place is left for a new cell. -/
theorem push_eq_error_iff {fault : Fault} :
    push limit name value s = .error fault ↔
      ¬ Present name s ∧ s.isFull limit = true ∧ fault = { kind := .stackOverflow } := by
  by_cases hp : Present name s
  · obtain ⟨x, rfl, hx⟩ := hp
    simp [push_of_holds hx, present_some_iff, hx]
  · simp [push_of_not_present hp, append_eq_error_iff, hp]

theorem isFull_some {m : Int} : s.isFull (some m) = decide (m ≤ s.length) := rfl

theorem isFull_eq_true_iff :
    s.isFull limit = true ↔ ∃ m, limit = some m ∧ m ≤ (s.length : Int) := by
  cases limit with
  | none => simp [isFull]
  | some m => simp [isFull_some]

theorem isFull_eq_false_iff :
    s.isFull limit = false ↔ ∀ m, limit = some m → (s.length : Int) < m := by
  cases limit with
  | none => simp [isFull]
  | some m => simp [isFull_some]

end Stack

/-! ## Properties that survive taking and pushing -/

namespace Instr

/-- How many cells an instruction takes from the stack. -/
def arity : Instr → Nat
  | .const _ | .load _ | .jump _ => 0
  | .store _ | .jumpIf _ | .ret => 1
  | .binary _ => 2

/-- Whether an instruction pushes a value. -/
def pushes : Instr → Bool
  | .const _ | .store _ | .load _ | .binary _ => true
  | .jump _ | .jumpIf _ | .ret => false

end Instr

/-- A property of stacks that holds of the empty stack and survives taking a cell from the top and
    pushing one under the limit. -/
structure Stack.Invariant (limit : Option Int) (P : Stack → Prop) : Prop where
  nil : P []
  tail : ∀ {cell : Cell} {s : Stack}, P (cell :: s) → P s
  push : ∀ {name : Option String} {value : Int} {s t : Stack},
    P s → Stack.push limit name value s = .ok t → P t

namespace Stack.Invariant

variable {limit : Option Int} {P : Stack → Prop}

theorem effect_push (hP : Invariant limit P) {name : Option String} {value : Int} {s : Stack}
    (hs : P s) : P (Effect.push limit name value s).stack := by
  unfold Effect.push
  cases h : Stack.push limit name value s with
  | ok t => exact hP.push hs h
  | error fault => exact hs

/-- Cells taken one at a time leave a stack with the property, also when there are too few. -/
theorem pop (hP : Invariant limit P) {count : Nat} {s : Stack} (hs : P s) :
    P (Stack.pop count s).2 := by
  induction count generalizing s with
  | zero => exact hs
  | succ count ih =>
    cases s with
    | nil => exact hP.nil
    | cons cell rest => exact ih (hP.tail hs)

/-- Every instruction keeps the property, also when it fails after it has taken cells. -/
theorem effect (hP : Invariant limit P) (instr : Instr) {s : Stack} (hs : P s) :
    P (instr.effect limit s).stack := by
  cases instr with
  | const value => exact hP.effect_push hs
  | store x =>
    cases s with
    | nil => exact hP.nil
    | cons cell s => exact hP.effect_push (hP.tail hs)
  | load x =>
    cases h : Stack.lookup (String.singleton x) s with
    | some value =>
      simp only [Instr.effect, h]
      exact hP.effect_push hs
    | none =>
      simp only [Instr.effect, h]
      exact hs
  | binary op =>
    rcases s with _ | ⟨a, _ | ⟨b, s⟩⟩
    · exact hP.nil
    · exact hP.nil
    · -- both operands are gone whether the operator has a result or not
      have hrest : P s := hP.tail (hP.tail hs)
      simp only [Instr.effect]
      cases op.apply a.value b.value with
      | ok value => exact hP.effect_push hrest
      | error fault => exact hrest
  | jump target => exact hs
  | jumpIf target =>
    cases s with
    | nil => exact hP.nil
    | cons cell s => exact hP.tail hs
  | ret =>
    cases s with
    | nil => exact hP.nil
    | cons cell s => exact hP.tail hs

end Stack.Invariant

/-! ## Steps and runs -/

namespace Stack.Invariant

variable {limit : Option Int} {P : Stack → Prop}

theorem step (hP : Invariant limit P) (program : Program) {config : Config} (h : P config.stack) :
    P (program.step limit config).config.stack := by
  cases hfetch : program[config.pc]? with
  | some instr =>
    rw [Program.step_of_fetch hfetch, Route.stack_step]
    exact hP.effect instr h
  | none =>
    rw [Program.step_of_not_fetch hfetch]
    exact h

/-- A run keeps the property wherever it fetches. -/
theorem visited (hP : Invariant limit P) {program : Program} {budget : Nat} {start : Config}
    (h : P start.stack) : ∀ config ∈ program.visited limit budget start, P config.stack := by
  refine Program.visited_invariant (P := fun config => P config.stack) ?_ h
  intro config next hconfig hnext
  have := hP.step program hconfig
  rwa [hnext] at this

/-- A run that ends has the property at its end, with a result or a fault. -/
theorem run (hP : Invariant limit P) {program : Program} {budget : Nat} {report : Report}
    (h : program.run limit budget = some report) : P report.final.stack := by
  obtain ⟨last, hlast, hend⟩ := Program.exists_last_of_runFrom h
  have := hP.step program (hP.visited hP.nil last hlast)
  rwa [hend] at this

end Stack.Invariant

/-! ## Actions and sessions -/

namespace Machine

variable {P : Stack → Prop} {machine : Machine} {budget : Nat}

/-- A run erases what the stack held: the property holds inside it, whatever was there before. -/
theorem inside_invariant (hP : Stack.Invariant machine.limit P) (action : Action) :
    ∀ state ∈ machine.inside budget action, P state.stack := by
  intro state hstate
  cases action with
  | run raws =>
    simp only [inside] at hstate
    cases hb : Program.build raws with
    | error error => simp [hb] at hstate
    | ok program =>
      simp only [hb, List.mem_map] at hstate
      obtain ⟨config, hconfig, rfl⟩ := hstate
      exact hP.visited hP.nil config hconfig
  | _ => simp [inside] at hstate

/-- A run of a program that is built leaves a stack with the property, whatever was there before. -/
theorem act_run_invariant (hP : Stack.Invariant machine.limit P) {raws : List RawInstr}
    {program : Program} (hb : Program.build raws = .ok program) {outcome : Outcome}
    (h : machine.act budget (.run raws) = some outcome) : P outcome.machine.stack := by
  simp only [act, hb, run, Option.map_map, Option.map_eq_some_iff] at h
  obtain ⟨report, hrun, rfl⟩ := h
  exact hP.run hrun

/-- Every action keeps the property but for one that overwrites the stack. -/
theorem act_invariant (hP : Stack.Invariant machine.limit P) {action : Action} {outcome : Outcome}
    (ha : action.assignsStack = false) (h : machine.act budget action = some outcome)
    (hs : P machine.stack) : P outcome.machine.stack := by
  cases action with
  | run raws =>
    cases hb : Program.build raws with
    | ok program => exact act_run_invariant hP hb h
    | error error =>
      simp only [act, hb, Option.some.injEq] at h
      exact h ▸ hs
  | push name value =>
    simp only [act, push] at h
    cases hp : Stack.push machine.limit name value machine.stack with
    | ok t =>
      simp only [hp, Functor.map, Except.map, Option.some.injEq] at h
      exact h ▸ hP.push hs hp
    | error fault =>
      simp only [hp, Functor.map, Except.map, Option.some.injEq] at h
      exact h ▸ hs
  | pop count =>
    simp only [act, pop, Option.some.injEq] at h
    exact h ▸ hP.pop hs
  | clear =>
    simp only [act, clear, Option.some.injEq] at h
    exact h ▸ hP.nil
  | fetch raws =>
    simp only [act] at h
    cases hb : Program.build raws with
    | ok program => simp only [hb, Option.some.injEq] at h; exact h ▸ hs
    | error error => simp only [hb, Option.some.injEq] at h; exact h ▸ hs
  | assignStack stack => simp [Action.assignsStack] at ha
  | advance length | moveTo target length | assignPointer ip | assignLimit limit | setTracing on =>
    simp only [act, advance, moveTo, Option.some.injEq] at h
    exact h ▸ hs

theorem act_limit {action : Action} {outcome : Outcome} (ha : action.assignsLimit = false)
    (h : machine.act budget action = some outcome) : outcome.machine.limit = machine.limit := by
  cases action with
  | run raws =>
    simp only [act] at h
    cases hb : Program.build raws with
    | ok program =>
      simp only [hb, run, Option.map_map, Option.map_eq_some_iff] at h
      obtain ⟨report, -, rfl⟩ := h
      rfl
    | error error => simp only [hb, Option.some.injEq] at h; exact h ▸ rfl
  | push name value =>
    simp only [act, push] at h
    cases hp : Stack.push machine.limit name value machine.stack <;>
      (simp only [hp, Functor.map, Except.map, Option.some.injEq] at h; exact h ▸ rfl)
  | fetch raws =>
    simp only [act] at h
    cases hb : Program.build raws <;> (simp only [hb, Option.some.injEq] at h; exact h ▸ rfl)
  | assignLimit limit => simp [Action.assignsLimit] at ha
  | pop count | clear | advance length | moveTo target length | assignPointer ip
  | assignStack stack | setTracing on =>
    simp only [act, pop, clear, advance, moveTo, Option.some.injEq] at h
    exact h ▸ rfl

/-- Every state of a session has the property when neither the stack nor the limit is
    overwritten. -/
theorem history_invariant {actions : List Action} (hP : Stack.Invariant machine.limit P)
    (hactions : ∀ action ∈ actions, action.assignsStack = false ∧ action.assignsLimit = false)
    (hs : P machine.stack) : ∀ state ∈ machine.history budget actions, P state.stack := by
  induction actions generalizing machine with
  | nil => simpa [history] using hs
  | cons action rest ih =>
    obtain ⟨⟨hstack, hlimit⟩, hrest⟩ := List.forall_mem_cons.1 hactions
    intro state hstate
    rcases mem_history_cons.1 hstate with rfl | hinside | ⟨outcome, hact, hlater⟩
    · exact hs
    · exact inside_invariant hP action state hinside
    · -- the limit is still the one the property is about
      have hkept : Stack.Invariant outcome.machine.limit P := by rwa [act_limit hlimit hact]
      exact ih hkept hrest (act_invariant hP hstack hact hs) state hlater

end Machine

end StackVM
