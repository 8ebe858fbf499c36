import StackVM.Proofs.MemoryModel
import StackVM.Proofs.Variables

set_option autoImplicit false

/-! # One cell to a variable

The machine writes every cell of a variable and reads the lowest. The single-binding machine writes
and reads only the topmost one, and is the same machine otherwise. Names stay distinct unless the
stack is overwritten, so the two cannot be told apart (`SingleBinding.session_eq`). -/

namespace StackVM

namespace SingleBinding

/-- Writes a value to the topmost cell of a variable. -/
def assign (name : String) (value : Int) : Stack → Stack
  | [] => []
  | cell :: s => if cell.isNamed name then ⟨cell.name, value⟩ :: s else cell :: assign name value s

/-- The value of a variable, from its topmost cell. -/
def lookup (name : String) (s : Stack) : Option Int := (s.find? (·.isNamed name)).map (·.value)

/-- Writes a variable that is on the stack to its topmost cell; puts anything else on top. -/
def push (limit : Option Int) (name : Option String) (value : Int) (s : Stack) :
    Except Fault Stack :=
  match name with
  | none => s.append limit ⟨none, value⟩
  | some x => if s.holds x then .ok (assign x value s) else s.append limit ⟨some x, value⟩

/-- What an instruction does: only writing and reading a variable differ. -/
def effect (limit : Option Int) : Instr → Stack → Effect
  | .store x, cell :: s =>
    match push limit (some (String.singleton x)) cell.value s with
    | .ok t => ⟨.next, t⟩
    | .error fault => ⟨.fail fault, s⟩
  | .load x, s =>
    match lookup (String.singleton x) s with
    | some value => .push limit none value s
    | none => ⟨.fail { kind := .unknownVariable, name := some (String.singleton x) }, s⟩
  | instr, s => instr.effect limit s

/-- Does one action: only a run and a push differ. -/
def act (machine : Machine) (budget : Nat) : Action → Option Outcome
  | .run raws =>
    match Program.build raws with
    | .error error => some { reply := .refused error, machine }
    | .ok program =>
      ((MemoryModel.ofEffect (effect machine.limit)).run program budget).map fun report =>
        { reply := .ofEnding report.ending
          machine := { machine with ip := report.pc, stack := report.memory }
          lines := if machine.tracing then program.trace report.path else [] }
  | .push name value =>
    match push machine.limit name value machine.stack with
    | .ok stack => some { reply := .done, machine := { machine with stack } }
    | .error fault => some { reply := .fault fault, machine }
  | action => machine.act budget action

/-- The answers to a sequence of actions, and the machine after them. -/
def session (machine : Machine) (budget : Nat) : List Action → Option (List Answer × Machine)
  | [] => some ([], machine)
  | action :: rest => do
    let outcome ← act machine budget action
    let (answers, last) ← session outcome.machine budget rest
    return (outcome.machine.answer outcome.reply outcome.lines :: answers, last)

/-! ## Distinct names leave no choice -/

variable {limit : Option Int} {name : Option String} {x : String} {value : Int} {s : Stack}

theorem assign_eq (h : s.DistinctNames) : assign x value s = s.assign x value := by
  induction s with
  | nil => rfl
  | cons cell s ih =>
    obtain ⟨hfresh, hs⟩ := Stack.distinctNames_cons_iff.1 h
    cases hnamed : cell.isNamed x with
    | true =>
      -- the cells the machine would write below do not exist
      have hrest := hfresh x (Stack.isNamed_iff.1 hnamed)
      rw [Stack.assign_cons, Stack.assign_of_not_holds hrest]
      simp [assign, hnamed, Cell.assign]
    | false =>
      rw [Stack.assign_cons, ← ih hs]
      simp [assign, hnamed, Cell.assign]

theorem lookup_eq (h : s.DistinctNames) : lookup x s = s.lookup x := by
  induction s with
  | nil => rfl
  | cons cell s ih =>
    obtain ⟨hfresh, hs⟩ := Stack.distinctNames_cons_iff.1 h
    rw [Stack.lookup_cons, ← ih hs]
    cases hnamed : cell.isNamed x with
    | true =>
      have hrest := Stack.lookup_eq_none_iff.2 (hfresh x (Stack.isNamed_iff.1 hnamed))
      rw [← ih hs] at hrest
      rw [hrest]
      simp [lookup, hnamed]
    | false => simp [lookup, hnamed]

theorem push_eq (h : s.DistinctNames) :
    push limit name value s = Stack.push limit name value s := by
  cases name with
  | none => rfl
  | some x => simp only [push, Stack.push, assign_eq h]

theorem effect_eq (h : s.DistinctNames) (instr : Instr) :
    effect limit instr s = instr.effect limit s := by
  cases instr with
  | store x =>
    cases s with
    | nil => rfl
    | cons cell s =>
      cases hp : Stack.push limit (some (String.singleton x)) cell.value s <;>
        simp only [effect, Instr.effect, Effect.push, push_eq h.of_cons, hp]
  | load x =>
    cases hx : s.lookup (String.singleton x) <;>
      simp only [effect, Instr.effect, lookup_eq h, hx]
  | const | binary | jump | jumpIf | ret => rfl

/-! ## Runs and sessions -/

/-- The reports of the two machines on one program differ in nothing. -/
theorem run_agrees (program : Program) (limit : Option Int) (budget : Nat) :
    Option.Rel (MemoryModel.Agrees (· = ·)) (program.run limit budget)
      ((MemoryModel.ofEffect (effect limit)).run program budget) := by
  have hdistinct : ∀ config ∈ program.visited limit budget ⟨0, []⟩, config.stack.DistinctNames :=
    (Stack.distinctNames_invariant limit).visited (Stack.distinctNames_invariant limit).nil
  refine MemoryModel.runFrom_agrees rfl fun config hconfig instr memory _ hR => ?_
  have heq : effect limit instr config.stack = instr.effect limit config.stack :=
    effect_eq (hdistinct config hconfig) instr
  subst hR
  simp only [MemoryModel.Matches, MemoryModel.ofEffect, heq, and_self]

theorem act_eq {machine : Machine} (h : machine.stack.DistinctNames) (budget : Nat)
    (action : Action) : act machine budget action = machine.act budget action := by
  cases action with
  | run raws =>
    simp only [act, Machine.act]
    cases Program.build raws with
    | error error => rfl
    | ok program =>
      -- the replies, the states and the lines are made of what the reports agree on
      have hagree := run_agrees program machine.limit budget
      simp only [Machine.run, Machine.lines, Option.map_map]
      generalize program.run machine.limit budget = report at hagree
      generalize (MemoryModel.ofEffect (effect machine.limit)).run program budget = other at hagree
      cases hagree with
      | none => rfl
      | some h =>
        simp only [Option.map_some, Function.comp_apply, h.ending, h.pc, h.path, h.memory]
  | push name value =>
    simp only [act, Machine.act, Machine.push, push_eq h]
    cases Stack.push machine.limit name value machine.stack <;> rfl
  | pop | clear | advance | moveTo | fetch | assignPointer | assignStack | assignLimit
  | setTracing => rfl

/-- Sessions agree from distinct names on, since every action keeps the names distinct. -/
theorem session_eq_of_distinctNames {machine : Machine} (h : machine.stack.DistinctNames)
    {actions : List Action} (hactions : ∀ action ∈ actions, action.assignsStack = false)
    (budget : Nat) : session machine budget actions = machine.session budget actions := by
  induction actions generalizing machine with
  | nil => rfl
  | cons action rest ih =>
    obtain ⟨haction, hrest⟩ := List.forall_mem_cons.1 hactions
    simp only [session, Machine.session, act_eq h]
    cases hact : machine.act budget action with
    | none => rfl
    | some outcome =>
      -- the limit may be another one by now, which distinct names do not depend on
      have hkept := Machine.act_invariant (Stack.distinctNames_invariant _) haction hact h
      simp only [Option.bind_eq_bind, Option.bind_some, ih hkept hrest]

/-- **One cell to a variable is enough.** From a new machine, and as long as the stack is not
    overwritten, the single-binding machine gives the answers of the machine and leaves the same
    state, and its runs end exactly when those of the machine do. -/
theorem session_eq {limit : Option Int} {tracing : Bool} {machine : Machine}
    (hcreate : Machine.create limit tracing = .ok machine) {actions : List Action}
    (hactions : ∀ action ∈ actions, action.assignsStack = false) (budget : Nat) :
    session machine budget actions = machine.session budget actions := by
  obtain ⟨-, rfl⟩ := Machine.create_eq_ok_iff.1 hcreate
  have hempty : Stack.DistinctNames [] := List.Pairwise.nil
  exact session_eq_of_distinctNames hempty hactions budget

/-- A session that writes a name again over its limit, and runs a program that writes a variable
    twice and reads it. -/
theorem session_eq_of_rewritten_names :
    Machine.create (some 3) true = .ok { limit := some 3, tracing := true } ∧
    (∀ action ∈ [.push (some "x") 1, .assignLimit (some 0), .push (some "x") 2, .assignLimit none,
        .run ([.const 5, .store 'x', .const 6, .store 'x', .load 'x'].map RawInstr.ofInstr)],
      Action.assignsStack action = false) ∧
    session { limit := some 3, tracing := true } 9
        [.push (some "x") 1, .assignLimit (some 0), .push (some "x") 2, .assignLimit none,
          .run ([.const 5, .store 'x', .const 6, .store 'x', .load 'x'].map RawInstr.ofInstr)] =
      Machine.session { limit := some 3, tracing := true } 9
        [.push (some "x") 1, .assignLimit (some 0), .push (some "x") 2, .assignLimit none,
          .run ([.const 5, .store 'x', .const 6, .store 'x', .load 'x'].map RawInstr.ofInstr)] :=
  have hcreate : Machine.create (some 3) true = .ok { limit := some 3, tracing := true } := rfl
  ⟨hcreate, by simp [Action.assignsStack],
    session_eq hcreate (by simp [Action.assignsStack]) 9⟩

end SingleBinding

end StackVM
