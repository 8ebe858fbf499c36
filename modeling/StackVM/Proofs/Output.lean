import StackVM.Proofs.StackInvariant

set_option autoImplicit false

/-! # What an instruction puts in place of what it takes

An instruction takes cells from the top, and then either pushes one value or only directs the
machine. Which of the two, and with which value, does not depend on the limit (`Instr.output`): the
limit matters to the push alone (`Instr.effect_eq`). So every cell of the stack after an instruction
was there before or is what the instruction pushes (`Instr.mem_effect`), and a cell with a name comes
from a store (`Instr.output_eq_push_some_iff`). -/

namespace StackVM

/-- What an instruction does once it has taken its cells: it pushes a value, or only directs the
    machine. -/
inductive Output where
  | push (name : Option String) (value : Int)
  | direct (control : Control)
  deriving DecidableEq, Repr

/-- Carries an output out on the stack that is left. -/
def Output.perform (limit : Option Int) : Output → Stack → Effect
  | .push name value, s => .push limit name value s
  | .direct control, s => ⟨control, s⟩

namespace Instr

/-- The output of an instruction on a stack. -/
def output : Instr → Stack → Output
  | .const value, _ => .push none value.toInt
  | .store x, cell :: _ => .push (some (String.singleton x)) cell.value
  | .load x, s =>
    match s.lookup (String.singleton x) with
    | some value => .push none value
    | none => .direct (.fail { kind := .unknownVariable, name := some (String.singleton x) })
  | .binary op, a :: b :: _ =>
    match op.apply a.value b.value with
    | .ok value => .push none value
    | .error fault => .direct (.fail fault)
  | .jump target, _ => .direct (.goto target.toNat)
  | .jumpIf target, cell :: _ =>
    .direct (if cell.value = 1 then .goto target.toNat else .next)
  | .ret, cell :: _ => .direct (.halt cell.value)
  | .binary _, [_] | .binary _, [] | .store _, [] | .jumpIf _, [] | .ret, [] =>
    .direct (.fail { kind := .stackUnderflow })

/-- **An instruction takes its cells and puts its output.** -/
theorem effect_eq (limit : Option Int) (instr : Instr) (s : Stack) :
    instr.effect limit s = (instr.output s).perform limit (s.drop instr.arity) := by
  cases instr with
  | const value | jump target => rfl
  | store x | jumpIf target | ret => cases s <;> rfl
  | load x =>
    cases hx : s.lookup (String.singleton x) <;> simp only [effect, output, hx] <;> rfl
  | binary op =>
    rcases s with _ | ⟨a, _ | ⟨b, s⟩⟩
    · rfl
    · rfl
    · cases hop : op.apply a.value b.value <;> simp only [effect, output, hop] <;> rfl

variable {instr : Instr} {s : Stack} {limit : Option Int} {cell : Cell} {value : Int}

/-- Only a store pushes a named value: the one on top of the stack. -/
theorem output_eq_push_some_iff {name : String} :
    instr.output s = .push (some name) value ↔
      ∃ x, instr = .store x ∧ name = String.singleton x ∧ s.head?.map Cell.value = some value := by
  cases instr with
  | store x => cases s <;> simp [output, eq_comm]
  | load x => cases hx : s.lookup (String.singleton x) <;> simp [output, hx]
  | binary op =>
    rcases s with _ | ⟨a, _ | ⟨b, s⟩⟩
    · simp [output]
    · simp [output]
    · cases hop : op.apply a.value b.value <;> simp [output, hop]
  | jumpIf target | ret => cases s <;> simp [output]
  | const value | jump target => simp [output]

end Instr

/-! ## The cells after an instruction -/

namespace Stack

variable {limit : Option Int} {name : Option String} {value : Int} {s : Stack} {cell : Cell}

theorem mem_assign {x : String} (h : cell ∈ s.assign x value) :
    cell = ⟨some x, value⟩ ∨ cell ∈ s ∧ cell.name ≠ some x := by
  obtain ⟨old, hold, rfl⟩ := List.mem_map.1 h
  by_cases hx : old.name = some x
  · left
    simp [Cell.assign, Cell.isNamed, hx]
  · right
    have hkept : old.assign x value = old := by simp [Cell.assign, Cell.isNamed, hx]
    rw [hkept]
    exact ⟨hold, hx⟩

theorem not_present_none : ¬ Present none s := by simp [Present]

theorem effect_push_of_holds {x : String} (h : s.holds x = true) :
    Effect.push limit (some x) value s = ⟨.next, s.assign x value⟩ := by
  rw [Effect.push, push_of_holds h]

theorem effect_push_of_place (hp : ¬ Present name s) (h : s.isFull limit = false) :
    Effect.push limit name value s = ⟨.next, ⟨name, value⟩ :: s⟩ := by
  rw [Effect.push, push_of_not_present hp, append_eq_ok_iff.2 ⟨h, rfl⟩]

theorem effect_push_of_isFull (hp : ¬ Present name s) (h : s.isFull limit = true) :
    Effect.push limit name value s = ⟨.fail { kind := .stackOverflow }, s⟩ := by
  rw [Effect.push, push_of_not_present hp, append_eq_error_iff.2 ⟨h, rfl⟩]

/-- After a push a cell is the one pushed, or it was there and belongs to no variable written. -/
theorem mem_effect_push (h : cell ∈ (Effect.push limit name value s).stack) :
    cell = ⟨name, value⟩ ∨ cell ∈ s ∧ ∀ x, name = some x → cell.name ≠ some x := by
  by_cases hp : Present name s
  · obtain ⟨x, rfl, hx⟩ := hp
    rw [effect_push_of_holds hx] at h
    rcases mem_assign h with rfl | ⟨hcell, hne⟩
    · exact Or.inl rfl
    · refine Or.inr ⟨hcell, ?_⟩
      rintro _ ⟨⟩
      exact hne
  · -- none of the cells that were there belongs to the name
    have habsent : cell ∈ s → ∀ x, name = some x → cell.name ≠ some x := by
      rintro hcell x rfl hx
      rw [present_some_iff, Bool.not_eq_true, holds, List.any_eq_false] at hp
      exact hp cell hcell (by simp [Cell.isNamed, hx])
    cases hfull : s.isFull limit with
    | true =>
      rw [effect_push_of_isFull hp hfull] at h
      exact Or.inr ⟨h, habsent h⟩
    | false =>
      rw [effect_push_of_place hp hfull] at h
      rcases List.mem_cons.1 h with rfl | hcell
      · exact Or.inl rfl
      · exact Or.inr ⟨hcell, habsent hcell⟩

/-- A push of a named value on a stack with a place left gives a cell of the variable the value. -/
theorem mem_effect_push_of_place {x : String} (h : s.isFull limit = false) :
    ⟨some x, value⟩ ∈ (Effect.push limit (some x) value s).stack := by
  cases hx : s.holds x with
  | true =>
    rw [effect_push_of_holds hx]
    obtain ⟨old, hold, hname⟩ := List.mem_map.1 (holds_eq_true_iff.1 hx)
    refine List.mem_map.2 ⟨old, hold, ?_⟩
    simp [Cell.assign, Cell.isNamed, hname]
  | false =>
    have hp : ¬ Present (some x) s := by rw [present_some_iff, hx]; simp
    rw [effect_push_of_place hp h]
    exact List.mem_cons_self

/-- A value that is read is that of a cell. -/
theorem mem_of_lookup {x : String} (h : s.lookup x = some value) : ⟨some x, value⟩ ∈ s := by
  obtain ⟨cell, hfind, rfl⟩ := Option.map_eq_some_iff.1 h
  have hname : cell.name = some x := by simpa [Cell.isNamed] using List.find?_some hfind
  rw [← hname]
  exact List.mem_reverse.1 (List.mem_of_find?_eq_some hfind)

end Stack

namespace Instr

variable {instr : Instr} {s : Stack} {limit : Option Int} {cell : Cell}

/-- After an instruction a cell is what the instruction has pushed, or it was there before and is of
    no variable the instruction writes. -/
theorem mem_effect (h : cell ∈ (instr.effect limit s).stack) :
    instr.output s = .push cell.name cell.value ∨
      cell ∈ s ∧ ∀ x value, instr.output s = .push (some x) value → cell.name ≠ some x := by
  rw [effect_eq] at h
  cases hout : instr.output s with
  | direct control =>
    rw [hout] at h
    exact Or.inr ⟨List.mem_of_mem_drop h, by simp⟩
  | push name value =>
    rw [hout] at h
    rcases Stack.mem_effect_push h with rfl | ⟨hcell, hne⟩
    · exact Or.inl rfl
    · refine Or.inr ⟨List.mem_of_mem_drop hcell, ?_⟩
      rintro x _ ⟨⟩
      exact hne x rfl

end Instr

/-! ## The stack after a step -/

namespace Program

variable {program : Program} {limit : Option Int} {config : Config}

theorem stack_step_of_fetch {instr : Instr} (h : program[config.pc]? = some instr) :
    (program.step limit config).config.stack = (instr.effect limit config.stack).stack := by
  rw [step_of_fetch h, Route.stack_step]

theorem stack_step_of_not_fetch (h : program[config.pc]? = none) :
    (program.step limit config).config.stack = config.stack := by
  rw [step_of_not_fetch h]
  rfl

end Program

end StackVM
