import StackVM.Proofs.MemoryModel
import StackVM.Proofs.Variables

set_option autoImplicit false

/-! # Operands and variables apart

The split machine has a stack of operands and a map of variables in place of the one stack of the
machine. A stack of the machine shows both: its cells without a name, in order, and what reading
finds for each name (`Stack.split`). As long as no instruction takes a cell of a variable, every
instruction does to the two parts what the split machine does (`SplitMemory.effect_split`), so an
unbounded run ends on the split machine as it does on the machine. -/

namespace StackVM

/-- Operands, the top first, and the bindings of variables. -/
@[ext]
structure SplitMemory where
  operands : List Int
  bindings : String → Option Int

namespace SplitMemory

/-- Puts an operand on top. -/
def push (value : Int) (m : SplitMemory) : SplitMemory :=
  { m with operands := value :: m.operands }

/-- Binds a variable to a value, in place of the value it had. -/
def bind (x : String) (value : Int) (m : SplitMemory) : SplitMemory :=
  { m with bindings := fun y => if y = x then some value else m.bindings y }

/-- What an instruction does on the split machine. The operands it has taken when it fails are
    gone. -/
def effect (instr : Instr) (m : SplitMemory) : Control × SplitMemory :=
  match instr, m.operands with
  | .const value, _ => (.next, m.push value.toInt)
  | .store x, value :: rest => (.next, { m with operands := rest }.bind (String.singleton x) value)
  | .load x, _ =>
    match m.bindings (String.singleton x) with
    | some value => (.next, m.push value)
    | none => (.fail { kind := .unknownVariable, name := some (String.singleton x) }, m)
  | .binary op, a :: b :: rest =>
    match op.apply a b with
    | .ok value => (.next, { m with operands := value :: rest })
    | .error fault => (.fail fault, { m with operands := rest })
  | .jump target, _ => (.goto target.toNat, m)
  | .jumpIf target, value :: rest =>
    (if value = 1 then .goto target.toNat else .next, { m with operands := rest })
  | .ret, value :: rest => (.halt value, { m with operands := rest })
  | .binary _, [_] | .binary _, [] | .store _, [] | .jumpIf _, [] | .ret, [] =>
    (.fail { kind := .stackUnderflow }, { m with operands := [] })

/-- The split machine, which begins with no operand and no binding. -/
def model : MemoryModel SplitMemory where
  initial := ⟨[], fun _ => none⟩
  effect := effect

end SplitMemory

/-! ## The two parts of a stack -/

namespace Stack

/-- The values of the cells without a name, the top first. -/
def operands (s : Stack) : List Int := (s.filter Cell.isAnonymous).map Cell.value

/-- The two parts of a stack. -/
def split (s : Stack) : SplitMemory := ⟨s.operands, fun x => s.lookup x⟩

variable {cell : Cell} {x : String} {value : Int} {s t : Stack}

theorem isAnonymous_iff : cell.isAnonymous = true ↔ cell.name = none := by
  simp [Cell.isAnonymous]

theorem operands_cons_of_anonymous (h : cell.isAnonymous = true) :
    operands (cell :: s) = cell.value :: s.operands := by
  simp [operands, h]

theorem operands_cons_of_named (h : cell.name = some x) : operands (cell :: s) = s.operands := by
  simp [operands, Cell.isAnonymous, h]

/-- Writing a variable in place leaves the operands as they are. -/
theorem operands_assign : (s.assign x value).operands = s.operands := by
  induction s with
  | nil => rfl
  | cons cell s ih =>
    rw [assign_cons]
    cases hname : cell.name with
    | none =>
      have hcell : cell.assign x value = cell := by simp [Cell.assign, Cell.isNamed, hname]
      have hanon := isAnonymous_iff.2 hname
      rw [hcell, operands_cons_of_anonymous hanon, operands_cons_of_anonymous hanon, ih]
    | some y =>
      have hname' : (cell.assign x value).name = some y := (Cell.name_assign ..).trans hname
      rw [operands_cons_of_named hname', operands_cons_of_named hname, ih]

/-- Under an anonymous cell the parts are those of the rest, with its value on top. -/
theorem split_cons_of_anonymous (h : cell.isAnonymous = true) :
    split (cell :: s) = (split s).push cell.value := by
  have hnamed : ∀ y, cell.isNamed y = false := by
    intro y
    simp [Cell.isNamed, isAnonymous_iff.1 h]
  simp only [split, SplitMemory.push, operands_cons_of_anonymous h, lookup_cons, hnamed,
    Bool.false_eq_true, if_false, Option.or_none]

/-- Pushing a named value binds the variable, whether its cell is written or new. -/
theorem split_push (h : push none (some x) value s = .ok t) : t.split = s.split.bind x value := by
  rcases push_cases h with ⟨y, hy, hheld, rfl⟩ | ⟨habsent, -, rfl⟩
  · obtain rfl := Option.some.inj hy
    refine SplitMemory.ext operands_assign (funext fun y => ?_)
    simp only [split, SplitMemory.bind, lookup_assign, hheld, and_true]
  · -- a new cell lies above all others, and is read since none of them belongs to the variable
    rw [present_some_iff, Bool.not_eq_true] at habsent
    refine SplitMemory.ext (operands_cons_of_named rfl) (funext fun y => ?_)
    simp only [split, SplitMemory.bind, lookup_cons, Cell.isNamed, Option.some.injEq,
      decide_eq_true_eq]
    by_cases hyx : y = x
    · subst hyx
      simp [lookup_eq_none_iff.2 habsent]
    · have hxy : ¬ x = y := fun h => hyx h.symm
      simp [hyx, hxy]

/-- A push on an unbounded stack succeeds. -/
theorem exists_push_eq_ok (name : Option String) (value : Int) (s : Stack) :
    ∃ t, push none name value s = .ok t := by
  cases h : push none name value s with
  | ok t => exact ⟨t, rfl⟩
  | error fault =>
    obtain ⟨-, hfull, -⟩ := push_eq_error_iff.1 h
    simp [isFull] at hfull

end Stack

/-! ## Instructions that take operands only -/

/-- The instruction takes no cell of a variable from the stack. -/
def Instr.TakesOperands (instr : Instr) (s : Stack) : Prop :=
  ∀ cell ∈ s.take instr.arity, cell.isAnonymous = true

instance (instr : Instr) (s : Stack) : Decidable (instr.TakesOperands s) :=
  inferInstanceAs (Decidable (∀ cell ∈ s.take instr.arity, cell.isAnonymous = true))

/-- The top cell, if the instruction takes any. -/
theorem Instr.TakesOperands.top {instr : Instr} {cell : Cell} {s : Stack}
    (h : instr.TakesOperands (cell :: s)) (htakes : 0 < instr.arity) :
    cell.isAnonymous = true := by
  refine h cell ?_
  obtain ⟨n, hn⟩ := Nat.exists_eq_add_of_lt htakes
  rw [hn, Nat.zero_add, List.take_succ_cons]
  exact List.mem_cons_self

namespace SplitMemory

open Stack

variable {s : Stack}

/-- The result of an instruction goes on top of the operands. -/
theorem split_effect_push (value : Int) (s : Stack) :
    (.next, s.split.push value) =
      ((Effect.push none none value s).control, (Effect.push none none value s).stack.split) :=
  have hanon : Cell.isAnonymous ⟨none, value⟩ = true := rfl
  congrArg (Prod.mk _) (split_cons_of_anonymous hanon).symm

/-- Every instruction does to the two parts of a stack what the split machine does. -/
theorem effect_split {instr : Instr} (h : instr.TakesOperands s) :
    effect instr s.split =
      ((instr.effect none s).control, (instr.effect none s).stack.split) := by
  cases instr with
  | const value => exact split_effect_push value.toInt s
  | store x =>
    cases s with
    | nil => rfl
    | cons cell s =>
      have hanon : cell.isAnonymous = true := h.top Nat.zero_lt_one
      obtain ⟨t, ht⟩ := exists_push_eq_ok (some (String.singleton x)) cell.value s
      rw [split_cons_of_anonymous hanon]
      simp only [Instr.effect, Effect.push, ht, split_push ht]
      rfl
  | load x =>
    cases hx : s.lookup (String.singleton x) with
    | none => simp only [effect, Instr.effect, split, hx]
    | some value =>
      simp only [Instr.effect, hx, ← split_effect_push]
      simp only [effect, split, hx]
  | binary op =>
    rcases s with _ | ⟨a, _ | ⟨b, s⟩⟩
    · rfl
    · -- the one operand there is has to be anonymous too: it is taken before the other is missing
      have hanon : a.isAnonymous = true := h.top Nat.zero_lt_two
      rw [split_cons_of_anonymous hanon]
      rfl
    · have hanonA : a.isAnonymous = true := h.top Nat.zero_lt_two
      have hanonB : b.isAnonymous = true := h b (by simp [Instr.arity])
      rw [split_cons_of_anonymous hanonA, split_cons_of_anonymous hanonB]
      cases hop : op.apply a.value b.value with
      | ok value =>
        simp only [Instr.effect, hop, ← split_effect_push]
        simp only [effect, SplitMemory.push, hop]
      | error fault => simp only [effect, Instr.effect, SplitMemory.push, hop]
  | jump target => rfl
  | jumpIf target =>
    cases s with
    | nil => rfl
    | cons cell s =>
      have hanon : cell.isAnonymous = true := h.top Nat.zero_lt_one
      rw [split_cons_of_anonymous hanon]
      rfl
  | ret =>
    cases s with
    | nil => rfl
    | cons cell s =>
      have hanon : cell.isAnonymous = true := h.top Nat.zero_lt_one
      rw [split_cons_of_anonymous hanon]
      rfl

/-- **Operands and variables can be kept apart.** When an unbounded run ends and none of its
    instructions takes a cell of a variable, the split machine ends with the same result or fault,
    at the same place and by the same path. The cells without a name are then its operands, and the
    cells with one are its bindings, one cell to a variable. -/
theorem run_refines {program : Program} {budget : Nat} {report : Report}
    (hrun : program.run none budget = some report)
    (htakes : ∀ config ∈ program.visited none budget ⟨0, []⟩, ∀ instr ∈ program[config.pc]?,
      instr.TakesOperands config.stack) :
    ∃ other, model.run program budget = some other ∧
      other.ending = report.ending ∧ other.pc = report.final.pc ∧
      other.path = report.path ∧ program.trace other.path = program.trace report.path ∧
      other.memory.operands = report.final.stack.operands ∧
      report.final.stack.DistinctNames ∧
      ∀ x value, ⟨some x, value⟩ ∈ report.final.stack ↔
        other.memory.bindings x = some value := by
  have hagree : Option.Rel (MemoryModel.Agrees fun s m => m = s.split)
      (program.run none budget) (model.run program budget) := by
    refine MemoryModel.runFrom_agrees rfl fun config hconfig instr m hfetch hm => ?_
    have heffect := effect_split (htakes config hconfig instr hfetch)
    subst hm
    exact ⟨congrArg Prod.fst heffect, congrArg Prod.snd heffect⟩
  have hdistinct := (Stack.distinctNames_invariant none).run hrun
  rw [hrun] at hagree
  generalize model.run program budget = result at hagree ⊢
  cases hagree with
  | some h =>
    refine ⟨_, rfl, h.ending, h.pc, h.path, congrArg program.trace h.path, ?_, hdistinct, ?_⟩
    · rw [h.memory]
      rfl
    · intro x value
      rw [h.memory, ← lookup_eq_some_iff hdistinct]
      rfl

/-- A countdown of a variable from 2, by a loop that writes it in place. -/
def countdown : Program :=
  [.const 2, .store 'n', .const (-1), .load 'n', .binary .add, .store 'n', .const 0, .load 'n',
    .binary .gt, .jumpIf 2, .load 'n', .ret]

/-- The countdown never takes the cell of its variable, and ends with it as the one binding. -/
theorem run_refines_of_countdown :
    countdown.run none 20 = some ⟨.result 0, ⟨11, [⟨some "n", 0⟩]⟩,
      [0, 1, 2, 3, 4, 5, 6, 7, 8, 9, 2, 3, 4, 5, 6, 7, 8, 9, 10, 11]⟩ ∧
    (∀ config ∈ countdown.visited none 20 ⟨0, []⟩, ∀ instr ∈ countdown[config.pc]?,
      instr.TakesOperands config.stack) ∧
    ∃ other, model.run countdown 20 = some other ∧
      other.ending = .result 0 ∧ other.pc = 11 ∧
      other.path = [0, 1, 2, 3, 4, 5, 6, 7, 8, 9, 2, 3, 4, 5, 6, 7, 8, 9, 10, 11] ∧
      countdown.trace other.path =
        countdown.trace [0, 1, 2, 3, 4, 5, 6, 7, 8, 9, 2, 3, 4, 5, 6, 7, 8, 9, 10, 11] ∧
      other.memory.operands = [] ∧ Stack.DistinctNames [⟨some "n", 0⟩] ∧
      ∀ x value, ⟨some x, value⟩ ∈ [(⟨some "n", 0⟩ : Cell)] ↔
        other.memory.bindings x = some value := by
  have hrun : countdown.run none 20 = some ⟨.result 0, ⟨11, [⟨some "n", 0⟩]⟩,
      [0, 1, 2, 3, 4, 5, 6, 7, 8, 9, 2, 3, 4, 5, 6, 7, 8, 9, 10, 11]⟩ := by decide
  have htakes : ∀ config ∈ countdown.visited none 20 ⟨0, []⟩, ∀ instr ∈ countdown[config.pc]?,
      instr.TakesOperands config.stack := by decide
  exact ⟨hrun, htakes, run_refines hrun htakes⟩

end SplitMemory

end StackVM
