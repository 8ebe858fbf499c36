import StackVM.Arith
import StackVM.Instr
import StackVM.Stack

set_option autoImplicit false

/-! # The effect of an instruction

What an instruction does to the stack, and where it sends the machine next. Nothing here depends on
the place of the instruction or on the program around it. -/

namespace StackVM

/-- Where an instruction sends the machine. -/
inductive Control where
  /-- On to the following instruction. -/
  | next
  /-- To another place of the program. -/
  | goto (target : Nat)
  /-- To the end of the run, with a result. -/
  | halt (result : Int)
  /-- To the end of the run, with a fault. -/
  | fail (fault : Fault)
  deriving DecidableEq, Repr

/-- What an instruction makes of a stack. -/
structure Effect where
  control : Control
  stack : Stack
  deriving DecidableEq, Repr

namespace Effect

/-- Pushes a value and goes on, or fails and leaves the stack as it is. -/
def push (limit : Option Int) (name : Option String) (value : Int) (s : Stack) : Effect :=
  match Stack.push limit name value s with
  | .ok t => ⟨.next, t⟩
  | .error fault => ⟨.fail fault, s⟩

/-- The end of an instruction that pops more than there is: nothing is left. -/
def underflow : Effect := ⟨.fail { kind := .stackUnderflow }, []⟩

end Effect

namespace Instr

/-- The effect of an instruction on a stack. What it has popped when it fails is gone. -/
def effect (limit : Option Int) : Instr → Stack → Effect
  | .const value, s => .push limit none value.toInt s
  | .store x, cell :: s => .push limit (some (String.singleton x)) cell.value s
  | .store _, [] => .underflow
  | .load x, s =>
    match Stack.lookup (String.singleton x) s with
    | some value => .push limit none value s
    | none => ⟨.fail { kind := .unknownVariable, name := some (String.singleton x) }, s⟩
  | .binary op, a :: b :: s =>
    match op.apply a.value b.value with
    | .ok value => .push limit none value s
    | .error fault => ⟨.fail fault, s⟩
  | .binary _, [_] | .binary _, [] => .underflow
  | .jump target, s => ⟨.goto target.toNat, s⟩
  | .jumpIf target, cell :: s => ⟨if cell.value = 1 then .goto target.toNat else .next, s⟩
  | .jumpIf _, [] => .underflow
  | .ret, cell :: s => ⟨.halt cell.value, s⟩
  | .ret, [] => .underflow

end Instr

end StackVM
