import StackVM.Proofs.ControlFlow

set_option autoImplicit false

/-! # Redirecting jumps

A jump can be given another target, and does otherwise what it did. No instruction but a jump goes
anywhere but on, so a redirected program differs from the one it is made of only in where its jumps
go (`Instr.effect_redirect`). -/

namespace StackVM

/-- Redirects a jump. -/
def Control.redirect (move : Nat → Nat) : Control → Control
  | .goto target => .goto (move target)
  | .next => .next
  | .halt result => .halt result
  | .fail fault => .fail fault

namespace Instr

/-- The instruction with its jump target, if it has one, replaced. -/
def redirect (move : Nat → Nat) : Instr → Instr
  | .jump target => .jump (.ofNat (move target.toNat))
  | .jumpIf target => .jumpIf (.ofNat (move target.toNat))
  | .const value => .const value
  | .store x => .store x
  | .load x => .load x
  | .binary op => .binary op
  | .ret => .ret

variable {move : Nat → Nat} {limit : Option Int} {instr : Instr} {s : Stack}

/-- Only a jump can be redirected. -/
theorem redirect_control_of_no_target (h : instr.target? = none) :
    (instr.effect limit s).control.redirect move = (instr.effect limit s).control := by
  cases hcontrol : (instr.effect limit s).control with
  | goto target =>
    rw [target?_of_goto hcontrol] at h
    cases h
  | next | halt | fail => rfl

/-- A redirected instruction does the same to the stack and goes where it is redirected to. -/
theorem effect_redirect
    (hmove : ∀ target, instr.target? = some target → Word32.IsIndex (move target)) :
    (instr.redirect move).effect limit s =
      ⟨(instr.effect limit s).control.redirect move, (instr.effect limit s).stack⟩ := by
  cases instr with
  | jump target =>
    have htarget := Word32.toNat_ofNat_natCast (hmove _ rfl)
    simp only [redirect, effect, htarget, Control.redirect]
  | jumpIf target =>
    have htarget := Word32.toNat_ofNat_natCast (hmove _ rfl)
    cases s with
    | nil => rfl
    | cons cell s =>
      simp only [redirect, effect, htarget]
      split <;> rfl
  | const | store | load | binary | ret =>
    rw [redirect_control_of_no_target rfl]
    rfl

end Instr

/-- A step at a redirected instruction goes where it is redirected to, with the stack that the
    instruction makes. -/
theorem Program.step_of_fetch_redirect {program : Program} {limit : Option Int} {config : Config}
    {instr : Instr} {move : Nat → Nat} (h : program[config.pc]? = some (instr.redirect move))
    (hmove : ∀ target, instr.target? = some target → Word32.IsIndex (move target)) :
    program.step limit config =
      (((instr.effect limit config.stack).control.redirect move).route program.length
        config.pc).step (instr.effect limit config.stack).stack := by
  rw [step_of_fetch h, Instr.effect_redirect hmove]

end StackVM
