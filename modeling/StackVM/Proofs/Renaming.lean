import Mathlib.Data.List.Basic
import Mathlib.Logic.Equiv.Basic
import StackVM.Proofs.Translation
import StackVM.Proofs.Variables

set_option autoImplicit false

/-! # Renaming variables

The names of variables are compared with each other and with nothing else, so it makes no difference
which they are. When the variables of a program are renamed by an injective map, every instruction
does to the renamed stack what it did to the stack, but for the names (`Instr.effect_rename`), and
whole runs are renamed along with it (`Machine.run_rename`). -/

namespace StackVM

open Function (Injective)

variable {r : Char → Char}

/-! ## Renamed cells and stacks -/

/-- The cell with every character of its name, if it has one, renamed. -/
def Cell.rename (r : Char → Char) (cell : Cell) : Cell :=
  { cell with name := cell.name.map (String.map r) }

def Stack.rename (r : Char → Char) (s : Stack) : Stack := s.map (Cell.rename r)

theorem Text.map_singleton (r : Char → Char) (x : Char) :
    (String.singleton x).map r = String.singleton (r x) := by
  rw [← String.toList_inj, String.toList_map, String.toList_singleton, String.toList_singleton,
    List.map_singleton]

theorem Cell.value_rename (r : Char → Char) (cell : Cell) : (cell.rename r).value = cell.value := rfl

theorem Stack.rename_cons (r : Char → Char) (cell : Cell) (s : Stack) :
    rename r (cell :: s) = cell.rename r :: rename r s := rfl

theorem Stack.isFull_rename (limit : Option Int) (s : Stack) :
    (s.rename r).isFull limit = s.isFull limit := by
  rw [isFull, isFull, rename, List.length_map]

section Injective

variable (hr : Injective r)

include hr

theorem Text.map_injective : Injective (String.map r) := by
  intro a b h
  rw [← String.toList_inj, String.toList_map, String.toList_map] at h
  exact String.toList_inj.1 (List.map_injective_iff.2 hr h)

theorem Cell.isNamed_rename (x : String) (cell : Cell) :
    (cell.rename r).isNamed (x.map r) = cell.isNamed x := by
  have hname := (Option.map_injective (Text.map_injective hr)).eq_iff (a := cell.name) (b := some x)
  rw [isNamed, isNamed, decide_eq_decide]
  exact hname

theorem Cell.assign_rename (x : String) (value : Int) (cell : Cell) :
    (cell.rename r).assign (x.map r) value = (cell.assign x value).rename r := by
  unfold assign
  rw [isNamed_rename hr]
  split <;> rfl

theorem Stack.holds_rename (x : String) (s : Stack) :
    (s.rename r).holds (x.map r) = s.holds x := by
  rw [holds, rename, List.any_map]
  exact congrArg s.any (funext (Cell.isNamed_rename hr x))

theorem Stack.assign_rename (x : String) (value : Int) (s : Stack) :
    (s.rename r).assign (x.map r) value = (s.assign x value).rename r := by
  rw [assign, assign, rename, rename, List.map_map, List.map_map]
  exact List.map_congr_left fun cell _ => Cell.assign_rename hr x value cell

/-- A renamed variable is read from the cell that the variable is read from. -/
theorem Stack.lookup_rename (x : String) (s : Stack) :
    (s.rename r).lookup (x.map r) = s.lookup x := by
  induction s with
  | nil => rfl
  | cons cell s ih =>
    rw [rename_cons, lookup_cons, lookup_cons, ih, Cell.isNamed_rename hr]
    rfl

theorem Stack.present_rename_iff (name : Option String) (s : Stack) :
    Present (name.map (String.map r)) (s.rename r) ↔ Present name s := by
  cases name with
  | none => exact iff_of_false not_present_none not_present_none
  | some x => rw [Option.map_some, present_some_iff, present_some_iff, holds_rename hr]

end Injective

/-! ## Renamed programs -/

/-- The fault with every character of its name, if it has one, renamed. -/
def Fault.rename (r : Char → Char) (fault : Fault) : Fault :=
  { fault with name := fault.name.map (String.map r) }

/-- The instruction with the variable that it writes or reads renamed. -/
def Instr.rename (r : Char → Char) : Instr → Instr
  | .store x => .store (r x)
  | .load x => .load (r x)
  | .const value => .const value
  | .binary op => .binary op
  | .jump target => .jump target
  | .jumpIf target => .jumpIf target
  | .ret => .ret

def Program.rename (r : Char → Char) (program : Program) : Program := program.map (Instr.rename r)

/-- Renaming as a translation of runs, which leaves places as they are. -/
def Translation.rename (r : Char → Char) : Translation where
  place := id
  stack := Stack.rename r
  fault := Fault.rename r
  place_succ _ := rfl
  fault_of_kind _ := rfl

variable {limit : Option Int}

theorem Effect.push_rename (hr : Injective r) (name : Option String) (value : Int) (s : Stack) :
    Effect.push limit (name.map (String.map r)) value (s.rename r) =
      (Translation.rename r).effect (Effect.push limit name value s) := by
  refine (Translation.rename r).effect_push (Stack.present_rename_iff hr name s)
    (Stack.isFull_rename limit s) rfl ?_
  rintro x _ rfl ⟨⟩
  exact Stack.assign_rename hr x value s

/-- A renamed instruction has the renamed effect on the renamed stack. -/
theorem Instr.effect_rename (hr : Injective r) (instr : Instr) (s : Stack) :
    (instr.rename r).effect limit (s.rename r) =
      (Translation.rename r).effect (instr.effect limit s) := by
  cases instr with
  | const value => exact Effect.push_rename hr none value.toInt s
  | store x =>
    cases s with
    | nil => rfl
    | cons cell s =>
      rw [Stack.rename_cons]
      simp only [rename, effect, Cell.value_rename, ← Text.map_singleton]
      exact Effect.push_rename hr (some (String.singleton x)) cell.value s
  | load x =>
    have hlookup := Stack.lookup_rename hr (String.singleton x) s
    rw [Text.map_singleton] at hlookup
    cases hx : s.lookup (String.singleton x) with
    | some value =>
      simp only [rename, effect, hx, hlookup]
      exact Effect.push_rename hr none value s
    | none =>
      simp only [rename, effect, hx, hlookup]
      rw [← Text.map_singleton]
      rfl
  | binary op =>
    rcases s with _ | ⟨a, _ | ⟨b, s⟩⟩
    · rfl
    · rfl
    · rw [Stack.rename_cons, Stack.rename_cons]
      cases hop : op.apply a.value b.value with
      | ok value =>
        simp only [rename, effect, Cell.value_rename, hop]
        exact Effect.push_rename hr none value s
      | error fault =>
        simp only [rename, effect, Cell.value_rename, hop]
        -- no operator names a variable in its fault
        obtain ⟨-, -, rfl⟩ := BinaryOp.apply_eq_error_iff.1 hop
        rfl
  | jump target => rfl
  | jumpIf target =>
    cases s with
    | nil => rfl
    | cons cell s =>
      rw [Stack.rename_cons]
      by_cases htaken : cell.value = 1
      · have htaken' : (cell.rename r).value = 1 := htaken
        simp only [rename, effect, if_pos htaken, if_pos htaken']
        rfl
      · have htaken' : ¬ (cell.rename r).value = 1 := htaken
        simp only [rename, effect, if_neg htaken, if_neg htaken']
        rfl
  | ret => cases s <;> rfl

/-! ## Renamed runs -/

def Ending.rename (r : Char → Char) : Ending → Ending
  | .result value => .result value
  | .fault reason => .fault (reason.rename r)

def Config.rename (r : Char → Char) (config : Config) : Config :=
  { config with stack := config.stack.rename r }

/-- The report with the names in its ending and on its stack renamed. -/
def Report.rename (r : Char → Char) (report : Report) : Report :=
  { report with ending := report.ending.rename r, final := report.final.rename r }

/-- The run of a renamed program is the renamed run, from every configuration. -/
theorem Program.runFrom_rename (hr : Injective r) (program : Program) (budget : Nat)
    (start : Config) : (program.rename r).runFrom limit budget (start.rename r) =
      (program.runFrom limit budget start).map (Report.rename r) := by
  have hplaces : (Translation.rename r).Places (Instr.rename r) program (program.rename r) :=
    fun _ => List.getElem?_map
  have hreport : (Translation.rename r).report = Report.rename r := by
    funext ⟨ending, final, path⟩
    have hpath : path.map (Translation.rename r).place = path := List.map_id path
    rw [Translation.report, hpath]
    cases ending <;> rfl
  rw [← hreport]
  exact hplaces.runFrom_eq fun config _ instr _ => Instr.effect_rename hr instr config.stack

namespace Machine

def rename (r : Char → Char) (machine : Machine) : Machine :=
  { machine with stack := machine.stack.rename r }

/-- **The names of variables are opaque.** Renaming the variables of a program by an injective map
    changes nothing about its run but the names: within every budget it ends or does not end as
    before, with the same result, or the same kind of fault about the renamed variable, with the same
    pointer, and with every name on the stack renamed, on whatever machine it runs. -/
theorem run_rename (hr : Injective r) (machine : Machine) (program : Program) (budget : Nat) :
    machine.run (program.rename r) budget =
      (machine.run program budget).map fun (report, after) =>
        (report.rename r, after.rename r) := by
  have hrun : (program.rename r).run machine.limit budget =
      (program.run machine.limit budget).map (Report.rename r) :=
    Program.runFrom_rename hr program budget ⟨0, []⟩
  rw [run, run, hrun, Option.map_map, Option.map_map]
  rfl

end Machine

/-- Writes two variables, one of them twice, and reads one that is not there. -/
def Program.unknownThird : Program :=
  [.const 3, .store 'x', .const 5, .store 'y', .load 'x', .store 'y', .load 'z']

/-- The variable that is not there exchanges its name with one that is. -/
theorem Machine.run_rename_of_unknownThird :
    Injective (Equiv.swap 'x' 'z') ∧
    run { ip := 4, stack := [⟨some "x", 8⟩], limit := some 3 } .unknownThird 7 =
      some (⟨.fault { kind := .unknownVariable, name := some "z" },
          ⟨6, [⟨some "y", 3⟩, ⟨some "x", 3⟩]⟩, [0, 1, 2, 3, 4, 5, 6]⟩,
        { ip := 6, stack := [⟨some "y", 3⟩, ⟨some "x", 3⟩], limit := some 3 }) ∧
    Program.unknownThird.rename (Equiv.swap 'x' 'z') =
      [.const 3, .store 'z', .const 5, .store 'y', .load 'z', .store 'y', .load 'x'] ∧
    run { ip := 4, stack := [⟨some "x", 8⟩], limit := some 3 }
        (Program.unknownThird.rename (Equiv.swap 'x' 'z')) 7 =
      some (⟨.fault { kind := .unknownVariable, name := some "x" },
          ⟨6, [⟨some "y", 3⟩, ⟨some "z", 3⟩]⟩, [0, 1, 2, 3, 4, 5, 6]⟩,
        { ip := 6, stack := [⟨some "y", 3⟩, ⟨some "z", 3⟩], limit := some 3 }) := by
  have hr : Injective (Equiv.swap 'x' 'z') := Equiv.injective _
  have hrun : run { ip := 4, stack := [⟨some "x", 8⟩], limit := some 3 } .unknownThird 7 =
      some (⟨.fault { kind := .unknownVariable, name := some "z" },
          ⟨6, [⟨some "y", 3⟩, ⟨some "x", 3⟩]⟩, [0, 1, 2, 3, 4, 5, 6]⟩,
        { ip := 6, stack := [⟨some "y", 3⟩, ⟨some "x", 3⟩], limit := some 3 }) := by decide
  have hx : "x".map (Equiv.swap 'x' 'z') = "z" := Text.map_singleton _ 'x'
  have hy : "y".map (Equiv.swap 'x' 'z') = "y" := Text.map_singleton _ 'y'
  have hz : "z".map (Equiv.swap 'x' 'z') = "x" := Text.map_singleton _ 'z'
  refine ⟨hr, hrun, by decide, ?_⟩
  rw [run_rename hr, hrun]
  simp only [Option.map_some, Report.rename, Ending.rename, Fault.rename, Config.rename, rename,
    Stack.rename, List.map_cons, List.map_nil, Cell.rename, hx, hy, hz]

end StackVM
