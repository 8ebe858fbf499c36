import StackVM.Proofs.Redirect
import StackVM.Proofs.Transitions
import StackVM.Proofs.Translation

set_option autoImplicit false

/-! # Cells at the bottom of the stack

Operands that lie under everything a program has on the stack are none of its business. No variable
is found in them, and an instruction reaches them only if it takes more cells than the program has
put there, which without them would be an underflow (`Instr.effect_append`). So a program that begins
by pushing constants, and then does what another one does, ends as that one does with the constants
under its stack (`Machine.ends_afterConstants`). -/

namespace StackVM

namespace Stack

/-- The cells that pushing the constants leaves, the last one on top. -/
def ofConstants (constants : List Int32) : Stack :=
  (constants.map fun value => (⟨none, value.toInt⟩ : Cell)).reverse

variable {limit : Option Int} {name : Option String} {x : String} {value : Int} {s frame : Stack}

theorem length_ofConstants (constants : List Int32) :
    (ofConstants constants).length = constants.length := by
  rw [ofConstants, List.length_reverse, List.length_map]

theorem name_of_mem_ofConstants {constants : List Int32} :
    ∀ cell ∈ ofConstants constants, cell.name = none := by
  simp [ofConstants]

theorem ofConstants_cons_append (constant : Int32) (constants : List Int32) (s : Stack) :
    ofConstants (constant :: constants) ++ s =
      ofConstants constants ++ ⟨none, constant.toInt⟩ :: s := by
  simp [ofConstants]

/-! ## Operands under a stack -/

section Operands

variable (hframe : ∀ cell ∈ frame, cell.name = none)

include hframe

theorem not_holds_of_operands (x : String) : frame.holds x = false :=
  holds_eq_false_iff.2 fun cell hcell hx => by
    rw [hframe cell hcell] at hx
    cases hx

theorem present_append_iff : Present name (s ++ frame) ↔ Present name s := by
  cases name with
  | none => exact iff_of_false not_present_none not_present_none
  | some x =>
    rw [present_some_iff, present_some_iff, holds, List.any_append, ← holds, ← holds,
      not_holds_of_operands hframe, Bool.or_false]

theorem assign_append : (s ++ frame).assign x value = s.assign x value ++ frame := by
  have hkept : frame.assign x value = frame := assign_of_not_holds (not_holds_of_operands hframe x)
  rw [assign, List.map_append, ← assign, ← assign, hkept]

/-- The lowest cell of a variable is none of the operands under the stack. -/
theorem lookup_append : (s ++ frame).lookup x = s.lookup x := by
  induction s with
  | nil => exact lookup_eq_none_iff.2 (not_holds_of_operands hframe x)
  | cons cell s ih => rw [List.cons_append, lookup_cons, ih, lookup_cons]

end Operands

theorem isFull_append :
    (s ++ frame).isFull (limit.map (· + (frame.length : Int))) = s.isFull limit := by
  cases limit with
  | none => rfl
  | some m =>
    rw [Option.map_some, isFull_some, isFull_some, List.length_append, decide_eq_decide]
    omega

end Stack

/-- Running with operands under the stack, `count` places further on in a program. -/
def Translation.onTopOf (frame : Stack) (count : Nat) : Translation where
  place pc := pc + count
  stack s := s ++ frame
  fault := id
  place_succ pc := Nat.add_right_comm pc 1 count
  fault_of_kind _ := rfl

namespace Instr

variable {limit : Option Int} {instr : Instr} {s frame : Stack}

/-- What an instruction does once it has its cells depends on them and on the variables only. -/
theorem output_append (hframe : ∀ cell ∈ frame, cell.name = none) (h : instr.arity ≤ s.length) :
    instr.output (s ++ frame) = instr.output s := by
  cases instr with
  | const value | jump target => rfl
  | load x => simp only [output, Stack.lookup_append hframe]
  | store x | jumpIf target | ret =>
    cases s with
    | nil => cases h
    | cons cell s => rfl
  | binary op =>
    rcases s with _ | ⟨a, _ | ⟨b, s⟩⟩
    · cases h
    · simp [arity] at h
    · rfl

/-- An instruction that finds its cells above the operands does not touch these. -/
theorem effect_append (hframe : ∀ cell ∈ frame, cell.name = none) (h : instr.arity ≤ s.length) :
    instr.effect (limit.map (· + (frame.length : Int))) (s ++ frame) =
      (Translation.onTopOf frame 0).effect (instr.effect limit s) := by
  rw [effect_eq, effect_eq, output_append hframe h, List.drop_append_of_le_length h]
  cases instr.output s with
  | direct control => cases control <;> rfl
  | push name value =>
    refine (Translation.onTopOf frame 0).effect_push (Stack.present_append_iff hframe)
      Stack.isFull_append rfl ?_
    rintro x _ rfl ⟨⟩
    exact Stack.assign_append hframe

/-- The redirected instruction does to the stack with operands under it, `count` places further on,
    what the instruction does to the stack. -/
theorem effect_redirect_append {count : Nat} (hframe : ∀ cell ∈ frame, cell.name = none)
    (h : instr.arity ≤ s.length)
    (htarget : ∀ target, instr.target? = some target → Word32.IsIndex (target + count : Nat)) :
    (instr.redirect (· + count)).effect (limit.map (· + (frame.length : Int))) (s ++ frame) =
      (Translation.onTopOf frame count).effect (instr.effect limit s) := by
  rw [effect_redirect htarget, effect_append hframe h]
  generalize instr.effect limit s = effect
  obtain ⟨control, t⟩ := effect
  cases control <;> rfl

theorem effect_of_length_lt_arity (h : s.length < instr.arity) :
    instr.effect limit s = .underflow := by
  cases instr with
  | const | load | jump => exact absurd h (Nat.not_lt_zero _)
  | store | jumpIf | ret =>
    cases s with
    | nil => rfl
    | cons cell s => simp [arity] at h
  | binary op =>
    rcases s with _ | ⟨a, _ | ⟨b, s⟩⟩
    · rfl
    · rfl
    · simp only [List.length_cons, arity] at h
      omega

end Instr

/-! ## Programs that begin with constants -/

namespace Program

/-- The program behind instructions that push constants, with its jumps to where their targets have
    moved. -/
def afterConstants (constants : List Int32) (program : Program) : Program :=
  constants.map .const ++ program.map (Instr.redirect (· + constants.length))

variable {program q : Program} {limit : Option Int} {start : Config} {budget : Nat} {report : Report}

theorem places_afterConstants (constants : List Int32) (program : Program) :
    (Translation.onTopOf (Stack.ofConstants constants) constants.length).Places
      (Instr.redirect (· + constants.length)) program (program.afterConstants constants) := by
  intro place
  have hlength : (constants.map Instr.const).length = constants.length := List.length_map _
  have hplace : (Translation.onTopOf (Stack.ofConstants constants) constants.length).place place =
      place + constants.length := rfl
  rw [hplace, afterConstants, List.getElem?_append_right (by omega), hlength, Nat.add_sub_cancel,
    List.getElem?_map]

/-- A run that comes to constants while there is room for them comes to what follows, with the
    constants on top of the stack. -/
theorem eval_constants {constants : List Int32} {place : Nat} {s : Stack}
    (hfetch : ∀ k constant, constants[k]? = some constant →
      q[place + k]? = some (.const constant))
    (hroom : ∀ m, limit = some m → ((s.length + constants.length : Nat) : Int) ≤ m) :
    q.eval limit ⟨place, s⟩ =
      q.eval limit ⟨place + constants.length, Stack.ofConstants constants ++ s⟩ := by
  induction constants generalizing place s with
  | nil => rfl
  | cons constant constants ih =>
    have hhere : q[place]? = some (.const constant) := hfetch 0 constant rfl
    have hfull : s.isFull limit = false := by
      cases hlimit : limit with
      | none => rfl
      | some m =>
        have hm := hroom m hlimit
        rw [List.length_cons] at hm
        rw [Stack.isFull_some, decide_eq_false_iff_not]
        omega
    have hstep : q.step limit ⟨place, s⟩ =
        .enter q.length (place + 1) (⟨none, constant.toInt⟩ :: s) := by
      rw [step_of_fetch hhere]
      simp only [Instr.effect, Stack.effect_push_of_place Stack.not_present_none hfull,
        Control.route, Route.step_enter]
    have hrest := @ih (place + 1) (⟨none, constant.toInt⟩ :: s) (fun k other hk => ?_) ?_
    · rw [eval_of_enter hstep, hrest, Stack.ofConstants_cons_append, List.length_cons,
        Nat.add_assoc, Nat.add_comm 1]
    · rw [Nat.add_assoc, Nat.add_comm 1]
      exact hfetch (k + 1) other hk
    · intro m hm
      have := hroom m hm
      simp only [List.length_cons] at this ⊢
      omega

/-- A run that ends otherwise than by an underflow fetches no instruction without its cells. -/
theorem arity_le_of_visited (h : program.runFrom limit budget start = some report)
    (hending : report.ending ≠ .fault { kind := .stackUnderflow }) :
    ∀ config ∈ program.visited limit budget start, ∀ instr, program[config.pc]? = some instr →
      instr.arity ≤ config.stack.length := by
  intro config hconfig instr hfetch
  by_contra hfew
  have hstep : program.step limit config =
      .ended (.fault { kind := .stackUnderflow }) ⟨config.pc, []⟩ := by
    rw [step_of_fetch hfetch, Instr.effect_of_length_lt_arity (Nat.lt_of_not_le hfew)]
    rfl
  exact hending (eq_of_ended_of_visited h hconfig hstep).1

/-- With operands under the stack a run does what it did without them, further on in the program. -/
theorem runFrom_afterConstants {constants : List Int32}
    (htargets : ∀ instr ∈ program, ∀ target, instr.target? = some target →
      Word32.IsIndex (target + constants.length : Nat))
    (h : program.runFrom limit budget start = some report)
    (hending : report.ending ≠ .fault { kind := .stackUnderflow }) :
    (program.afterConstants constants).runFrom (limit.map (· + (constants.length : Int))) budget
        ((Translation.onTopOf (Stack.ofConstants constants) constants.length).config start) =
      some ((Translation.onTopOf (Stack.ofConstants constants) constants.length).report report) := by
  have harity := arity_le_of_visited h hending
  rw [(places_afterConstants constants program).runFrom_eq, h, Option.map_some]
  intro config hconfig instr hfetch
  have hlength : (constants.length : Int) = (Stack.ofConstants constants).length := by
    rw [Stack.length_ofConstants]
  rw [hlength]
  exact Instr.effect_redirect_append Stack.name_of_mem_ofConstants
    (harity config hconfig instr hfetch) (htargets instr (List.mem_of_getElem? hfetch))

/-- A run from the beginning comes to the program behind the constants, with these on the stack. -/
theorem eval_afterConstants_start {constants : List Int32}
    (hroom : ∀ m, limit = some m → (constants.length : Int) ≤ m) :
    (program.afterConstants constants).eval limit ⟨0, []⟩ =
      (program.afterConstants constants).eval limit
        ⟨0 + constants.length, [] ++ Stack.ofConstants constants⟩ := by
  have hfetch : ∀ k constant, constants[k]? = some constant →
      (program.afterConstants constants)[0 + k]? = some (.const constant) := by
    intro k constant hk
    have hin : k < (constants.map Instr.const).length := by
      rw [List.length_map]
      exact (List.getElem?_eq_some_iff.1 hk).1
    rw [Nat.zero_add, afterConstants, List.getElem?_append_left hin, List.getElem?_map, hk,
      Option.map_some]
  have hroom' : ∀ m, limit = some m → ((0 + constants.length : Nat) : Int) ≤ m := by
    rwa [Nat.zero_add]
  rw [eval_constants hfetch hroom', List.append_nil, List.nil_append]

end Program

/-- **Cells at the bottom of the stack make no difference.** Let a run of a program end otherwise than
    by an underflow, on a machine with a limit or without one. The program behind instructions that
    push constants, with every jump to where its target has moved and with as many places more on the
    stack, ends with the same result or fault. The pointer is as many places further on, and the
    constants lie under the stack. -/
theorem Machine.ends_afterConstants {machine : Machine} {program : Program} {ending : Ending}
    {ip : Int} {stack : Stack} {constants : List Int32}
    (hlimit : ∀ m, machine.limit = some m → 0 ≤ m)
    (htargets : ∀ instr ∈ program, ∀ target, instr.target? = some target →
      Word32.IsIndex (target + constants.length : Nat))
    (h : machine.Ends program ending ip stack)
    (hending : ending ≠ .fault { kind := .stackUnderflow }) :
    { machine with limit := machine.limit.map (· + (constants.length : Int)) }.Ends
      (program.afterConstants constants) ending (ip + constants.length)
      (stack ++ Stack.ofConstants constants) := by
  obtain ⟨place, rfl, hmem⟩ := ends_iff.1 h
  obtain ⟨budget, report, hrun, rfl, hfinal⟩ := Program.mem_eval_iff.1 hmem
  have hrest := Program.mem_eval_of_runFrom (Program.runFrom_afterConstants htargets hrun hending)
  have hroom : ∀ m, machine.limit.map (· + (constants.length : Int)) = some m →
      (constants.length : Int) ≤ m := by
    intro m hm
    obtain ⟨least, hleast, rfl⟩ := Option.map_eq_some_iff.1 hm
    have := hlimit least hleast
    omega
  refine ends_iff.2 ⟨place + constants.length, rfl, ?_⟩
  rw [Program.eval_afterConstants_start hroom]
  -- what is left is to see the translated report through
  obtain ⟨ending, final, path⟩ := report
  obtain rfl : final = ⟨place, stack⟩ := hfinal
  cases ending <;> exact hrest

/-- Reads a variable again and again, until the stack is full. -/
def Program.readOnAndOn : Program := [.const 7, .store 'x', .load 'x', .jump 2]

/-- With two cells more, and two constants under it, the stack is full at the same reading. -/
theorem Machine.ends_afterConstants_of_readOnAndOn :
    (∀ m, some (2 : Int) = some m → 0 ≤ m) ∧
    (∀ instr ∈ Program.readOnAndOn, ∀ target, instr.target? = some target →
      Word32.IsIndex (target + [(-1 : Int32), 4].length : Nat)) ∧
    Ends { ip := 9, limit := some 2 } .readOnAndOn (.fault { kind := .stackOverflow }) 2
      [⟨none, 7⟩, ⟨some "x", 7⟩] ∧
    Program.readOnAndOn.afterConstants [-1, 4] =
      [.const (-1), .const 4, .const 7, .store 'x', .load 'x', .jump 4] ∧
    Ends { ip := 9, limit := some 4 } (Program.readOnAndOn.afterConstants [-1, 4])
      (.fault { kind := .stackOverflow }) 4 [⟨none, 7⟩, ⟨some "x", 7⟩, ⟨none, 4⟩, ⟨none, -1⟩] := by
  have hlimit : ∀ m, some (2 : Int) = some m → 0 ≤ m := by
    rintro m ⟨⟩
    decide
  have htargets : ∀ instr ∈ Program.readOnAndOn, ∀ target, instr.target? = some target →
      Word32.IsIndex (target + [(-1 : Int32), 4].length : Nat) := by
    change ∀ instr ∈ Program.readOnAndOn, ∀ target ∈ instr.target?, _
    decide
  have hends : Ends { ip := 9, limit := some 2 } .readOnAndOn (.fault { kind := .stackOverflow }) 2
      [⟨none, 7⟩, ⟨some "x", 7⟩] :=
    ⟨5, ⟨.fault { kind := .stackOverflow }, ⟨2, [⟨none, 7⟩, ⟨some "x", 7⟩]⟩, [0, 1, 2, 3, 2]⟩,
      { ip := 2, stack := [⟨none, 7⟩, ⟨some "x", 7⟩], limit := some 2 }, by decide, rfl, rfl, rfl⟩
  exact ⟨hlimit, htargets, hends, by decide,
    ends_afterConstants hlimit htargets hends (by decide)⟩

end StackVM
