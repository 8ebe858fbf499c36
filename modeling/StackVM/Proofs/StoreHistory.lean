import StackVM.Proofs.Output
import StackVM.Proofs.Steps
import StackVM.Proofs.Variables

set_option autoImplicit false

/-! # What a variable holds

`program.lastStored? x past` is the value that the last store to `x` has taken, of those executed at
the configurations `past`. In a run every cell of a variable has this value: a store writes it to the
cell that is there or to a new one, and every other instruction leaves the cells with a name as they
are or takes them away (`Program.Backs.step`). So nothing is ever read but what the run itself stored
last (`Machine.no_stale_variable`). -/

namespace StackVM

namespace Program

/-- The value that a store to the variable takes at a configuration; none when another instruction is
    there, or no cell. -/
def stored? (program : Program) (x : Char) (config : Config) : Option Int :=
  if program[config.pc]? = some (.store x) then config.stack.head?.map Cell.value else none

/-- The value that the last store to the variable has taken, the configurations being in order. -/
def lastStored? (program : Program) (x : Char) (past : List Config) : Option Int :=
  past.reverse.findSome? (program.stored? x)

/-- Every cell with a name belongs to a variable and has the value last stored to it. -/
def Backs (program : Program) (past : List Config) (s : Stack) : Prop :=
  ∀ cell ∈ s, ∀ name, cell.name = some name →
    ∃ x, name = String.singleton x ∧ program.lastStored? x past = some cell.value

variable {program : Program} {limit : Option Int} {past : List Config} {config : Config}
  {x : Char} {value : Int}

theorem lastStored?_concat :
    program.lastStored? x (past ++ [config]) =
      (program.stored? x config).or (program.lastStored? x past) := by
  rw [lastStored?, List.reverse_concat, List.findSome?_cons]
  cases program.stored? x config <;> rfl

theorem stored?_of_not_fetch (h : program[config.pc]? ≠ some (.store x)) :
    program.stored? x config = none :=
  if_neg h

/-- Without a store to the variable nothing has been stored to it. -/
theorem lastStored?_eq_none (h : ∀ earlier ∈ past, program[earlier.pc]? ≠ some (.store x)) :
    program.lastStored? x past = none := by
  rw [lastStored?, List.findSome?_eq_none_iff]
  intro earlier hearlier
  exact stored?_of_not_fetch (h earlier (List.mem_reverse.1 hearlier))

/-- The stores are the instructions that push a value with a name. -/
theorem stored?_eq_some_iff {instr : Instr} (hfetch : program[config.pc]? = some instr) :
    program.stored? x config = some value ↔
      instr.output config.stack = .push (some (String.singleton x)) value := by
  rw [Instr.output_eq_push_some_iff]
  unfold stored?
  rw [hfetch]
  constructor
  · intro h
    by_cases hstore : some instr = some (.store x)
    · rw [if_pos hstore] at h
      exact ⟨x, Option.some.inj hstore, rfl, h⟩
    · rw [if_neg hstore] at h
      simp at h
  · rintro ⟨y, rfl, hname, hvalue⟩
    rw [String.singleton_inj] at hname
    rw [if_pos (congrArg (fun c => some (Instr.store c)) hname.symm)]
    exact hvalue

/-! ## Stores back what is on the stack -/

/-- Every step keeps the variables backed, the one that ends a run included. -/
theorem Backs.step (h : program.Backs past config.stack) :
    program.Backs (past ++ [config]) (program.step limit config).config.stack := by
  intro cell hcell name hname
  cases hfetch : program[config.pc]? with
  | none =>
    rw [stack_step_of_not_fetch hfetch] at hcell
    obtain ⟨x, hx, hlast⟩ := h cell hcell name hname
    refine ⟨x, hx, ?_⟩
    rw [lastStored?_concat, stored?_of_not_fetch (by simp [hfetch]), Option.none_or]
    exact hlast
  | some instr =>
    rw [stack_step_of_fetch hfetch] at hcell
    rcases Instr.mem_effect hcell with hpushed | ⟨hkept, hother⟩
    · -- the cell is what a store has just pushed
      rw [hname] at hpushed
      obtain ⟨x, -, rfl, -⟩ := Instr.output_eq_push_some_iff.1 hpushed
      refine ⟨x, rfl, ?_⟩
      rw [lastStored?_concat, (stored?_eq_some_iff hfetch).2 hpushed, Option.some_or]
    · -- the cell was there, and a store to its variable would have written it
      obtain ⟨x, rfl, hlast⟩ := h cell hkept name hname
      refine ⟨x, rfl, ?_⟩
      have hnone : program.stored? x config = none := by
        rw [Option.eq_none_iff_forall_ne_some]
        intro value hvalue
        exact hother _ value ((stored?_eq_some_iff hfetch).1 hvalue) hname
      rw [lastStored?_concat, hnone, Option.none_or]
      exact hlast

/-- The variables of a run are backed wherever it comes to. -/
theorem Steps.backs {start : Config} (h : program.Steps limit start past config)
    (hempty : start.stack = []) : program.Backs past config.stack := by
  refine h.invariant (P := fun past config => program.Backs past config.stack) ?_ ?_
  · simp [Backs, hempty]
  · intro past config next hpast hstep
    have hnext : program.Backs (past ++ [config]) (program.step limit config).config.stack :=
      hpast.step
    rwa [hstep] at hnext

/-- A store that has a value to take writes it, since it leaves a place for it. -/
theorem mem_step_of_stored? (hwithin : config.stack.Within limit)
    (h : program.stored? x config = some value) :
    ⟨some (String.singleton x), value⟩ ∈ (program.step limit config).config.stack := by
  cases hfetch : program[config.pc]? with
  | none =>
    rw [stored?_of_not_fetch (by simp [hfetch])] at h
    simp at h
  | some instr =>
    have hout := (stored?_eq_some_iff hfetch).1 h
    obtain ⟨y, rfl, -, -⟩ := Instr.output_eq_push_some_iff.1 hout
    rw [stack_step_of_fetch hfetch]
    cases hs : config.stack with
    | nil => simp [hs, Instr.output] at hout
    | cons cell s =>
      rw [hs] at hout hwithin
      rw [Instr.effect_eq, hout]
      exact Stack.mem_effect_push_of_place hwithin.isFull_tail

/-! ## Loads read what is stored -/

/-- A load that succeeds pushes the value last stored to its variable. -/
theorem load_pushes_lastStored? (h : program.Backs past config.stack)
    (hnext : ((Instr.load x).effect limit config.stack).control = .next) :
    ∃ value, program.lastStored? x past = some value ∧
      ((Instr.load x).effect limit config.stack).stack = ⟨none, value⟩ :: config.stack := by
  rw [Instr.effect_eq] at hnext ⊢
  cases hx : config.stack.lookup (String.singleton x) with
  | none => simp [Instr.output, hx, Output.perform] at hnext
  | some value =>
    obtain ⟨y, hy, hlast⟩ := h _ (Stack.mem_of_lookup hx) _ rfl
    rw [String.singleton_inj] at hy
    subst hy
    refine ⟨value, hlast, ?_⟩
    simp only [Instr.output, hx, Output.perform] at hnext ⊢
    cases hfull : Stack.isFull limit (config.stack.drop (Instr.load x).arity) with
    | true => simp [Stack.effect_push_of_isFull Stack.not_present_none hfull] at hnext
    | false =>
      rw [Stack.effect_push_of_place Stack.not_present_none hfull]
      rfl

/-- A load of a variable to which nothing has been stored fails. -/
theorem step_of_load (h : program.Backs past config.stack)
    (hfetch : program[config.pc]? = some (.load x)) (hnone : program.lastStored? x past = none) :
    program.step limit config = .ended
      (.fault { kind := .unknownVariable, name := some (String.singleton x) }) config := by
  have hlookup : config.stack.lookup (String.singleton x) = none := by
    rw [Option.eq_none_iff_forall_ne_some]
    intro value hvalue
    obtain ⟨y, hy, hlast⟩ := h _ (Stack.mem_of_lookup hvalue) _ rfl
    rw [String.singleton_inj] at hy
    subst hy
    rw [hnone] at hlast
    simp at hlast
  rw [step_of_fetch hfetch]
  simp only [Instr.effect, hlookup]
  rfl

end Program

/-- **No variable is stale.** Wherever a run comes to and where it ends, every variable on the stack
    has the value that the last store to it in this run has taken, and each of these stores has
    written its value. So a load that succeeds pushes the value last stored, and a load of a variable
    that the run has not stored to fails, whatever the machine held before. -/
theorem Machine.no_stale_variable (machine : Machine) (program : Program) :
    (∀ past config, program.Steps machine.limit ⟨0, []⟩ past config →
      program.Backs past config.stack ∧
      (∀ x value, program.stored? x config = some value →
        ⟨some (String.singleton x), value⟩ ∈ (program.step machine.limit config).config.stack) ∧
      ∀ x, program[config.pc]? = some (.load x) →
        (((Instr.load x).effect machine.limit config.stack).control = .next →
          ∃ value, program.lastStored? x past = some value ∧
            (program.step machine.limit config).config.stack = ⟨none, value⟩ :: config.stack) ∧
        ((∀ earlier ∈ past, program[earlier.pc]? ≠ some (.store x)) →
          program.step machine.limit config = .ended
            (.fault { kind := .unknownVariable, name := some (String.singleton x) }) config)) ∧
    ∀ budget report after, machine.run program budget = some (report, after) →
      program.Backs (program.visited machine.limit budget ⟨0, []⟩) after.stack := by
  constructor
  · intro past config hsteps
    have hbacks := hsteps.backs rfl
    have hwithin : config.stack.Within machine.limit :=
      hsteps.stack_invariant (Stack.within_invariant machine.limit) rfl
    refine ⟨hbacks, fun x value hstored => Program.mem_step_of_stored? hwithin hstored, ?_⟩
    intro x hfetch
    constructor
    · intro hnext
      rw [Program.stack_step_of_fetch hfetch]
      exact Program.load_pushes_lastStored? hbacks hnext
    · intro hnone
      exact Program.step_of_load hbacks hfetch (Program.lastStored?_eq_none hnone)
  · intro budget report after h
    simp only [run, Option.map_eq_some_iff, Prod.mk.injEq] at h
    obtain ⟨report, hrun, rfl, rfl⟩ := h
    obtain ⟨past, last, hsteps, hend, hvisited⟩ := Program.exists_steps_of_runFrom hrun
    have hfinal : program.Backs (past ++ [last]) (program.step machine.limit last).config.stack :=
      (hsteps.backs rfl).step
    rwa [hend, ← hvisited] at hfinal

/-- A variable is written twice and read, another one is only read. -/
def Program.storedTwice : Program :=
  [.const 1, .store 'x', .const 2, .store 'x', .load 'x', .load 'y']

/-- The configurations of its run before the first read. -/
def Program.beforeRead : List Config :=
  [⟨0, []⟩, ⟨1, [⟨none, 1⟩]⟩, ⟨2, [⟨some "x", 1⟩]⟩, ⟨3, [⟨none, 2⟩, ⟨some "x", 1⟩]⟩]

/-- The first read finds the second value, the second one nothing, although the machine held a cell
    of that name before the run. -/
theorem Machine.no_stale_variable_of_storedTwice :
    Program.storedTwice.Steps none ⟨0, []⟩ Program.beforeRead ⟨4, [⟨some "x", 2⟩]⟩ ∧
    Program.storedTwice.Backs Program.beforeRead [⟨some "x", 2⟩] ∧
    ((Instr.load 'x').effect none [⟨some "x", 2⟩]).control = .next ∧
    (∃ value, Program.storedTwice.lastStored? 'x' Program.beforeRead = some value ∧
      (Program.storedTwice.step none ⟨4, [⟨some "x", 2⟩]⟩).config.stack =
        ⟨none, value⟩ :: [⟨some "x", 2⟩]) ∧
    (∀ earlier ∈ Program.beforeRead ++ [⟨4, [⟨some "x", 2⟩]⟩],
      Program.storedTwice[earlier.pc]? ≠ some (.store 'y')) ∧
    Program.storedTwice.step none ⟨5, [⟨none, 2⟩, ⟨some "x", 2⟩]⟩ = .ended
      (.fault { kind := .unknownVariable, name := some "y" }) ⟨5, [⟨none, 2⟩, ⟨some "x", 2⟩]⟩ ∧
    run { stack := [⟨some "y", 9⟩] } Program.storedTwice 9 =
      some (⟨.fault { kind := .unknownVariable, name := some "y" },
          ⟨5, [⟨none, 2⟩, ⟨some "x", 2⟩]⟩, [0, 1, 2, 3, 4, 5]⟩,
        { ip := 5, stack := [⟨none, 2⟩, ⟨some "x", 2⟩] }) ∧
    Program.storedTwice.Backs (Program.storedTwice.visited none 9 ⟨0, []⟩)
      [⟨none, 2⟩, ⟨some "x", 2⟩] := by
  have hfresh := no_stale_variable { stack := [⟨some "y", 9⟩] } Program.storedTwice
  have hsteps : Program.storedTwice.Steps none ⟨0, []⟩ Program.beforeRead ⟨4, [⟨some "x", 2⟩]⟩ := by
    decide
  have hlater : Program.storedTwice.Steps none ⟨0, []⟩
      (Program.beforeRead ++ [⟨4, [⟨some "x", 2⟩]⟩]) ⟨5, [⟨none, 2⟩, ⟨some "x", 2⟩]⟩ := by decide
  have hnone : ∀ earlier ∈ Program.beforeRead ++ [⟨4, [⟨some "x", 2⟩]⟩],
      Program.storedTwice[earlier.pc]? ≠ some (.store 'y') := by decide
  have hrun : run { stack := [⟨some "y", 9⟩] } Program.storedTwice 9 =
      some (⟨.fault { kind := .unknownVariable, name := some "y" },
          ⟨5, [⟨none, 2⟩, ⟨some "x", 2⟩]⟩, [0, 1, 2, 3, 4, 5]⟩,
        { ip := 5, stack := [⟨none, 2⟩, ⟨some "x", 2⟩] }) := by decide
  obtain ⟨hbacks, -, hload⟩ := hfresh.1 _ _ hsteps
  exact ⟨hsteps, hbacks, by decide, (hload 'x' rfl).1 (by decide), hnone,
    ((hfresh.1 _ _ hlater).2.2 'y' rfl).2 hnone, hrun, hfresh.2 _ _ _ hrun⟩

end StackVM
