import StackVM.Datum
import StackVM.Opcode
import StackVM.Word32

set_option autoImplicit false

/-! # Instructions

An instruction holds the operand that its opcode takes and no other: a constant is a signed 32-bit
word, a variable has a name of one character, a jump target is an unsigned 32-bit index. A character
is a Unicode scalar value: a surrogate that stands alone is none, so it is no name and stands in no
text. -/

namespace StackVM

/-- An instruction of the machine. -/
inductive Instr where
  /-- Push a constant. -/
  | const (value : Int32)
  /-- Pop a value and write it to a variable. -/
  | store (name : Char)
  /-- Push the value of a variable. -/
  | load (name : Char)
  /-- Replace the two topmost values by the result of an operation. -/
  | binary (op : BinaryOp)
  /-- Go to a place of the program. -/
  | jump (target : UInt32)
  /-- Pop a value and go to a place of the program when it is 1. -/
  | jumpIf (target : UInt32)
  /-- Pop the result and end. -/
  | ret
  deriving DecidableEq, Repr

/-- A list of instructions, numbered from 0. -/
abbrev Program := List Instr

namespace Instr

/-- The opcode of an instruction. -/
def opcode : Instr → Opcode
  | .const _ => .const
  | .store _ => .store
  | .load _ => .load
  | .binary op => .binary op
  | .jump _ => .jump
  | .jumpIf _ => .jumpIf
  | .ret => .ret

/-- The operand of an instruction as a value; null when it takes none. -/
def operand : Instr → Datum
  | .const value => .int value.toInt
  | .store name | .load name => .text (String.singleton name)
  | .jump target | .jumpIf target => .int target.toNat
  | .binary _ | .ret => .null

/-- The operand of an instruction as listings show it: a name quoted, a constant in decimal, a jump
    target in hexadecimal of at least four digits. -/
def operandText? : Instr → Option String
  | .const value => some (Text.decimal value.toInt)
  | .store name | .load name => some (Text.quoted (String.singleton name))
  | .jump target | .jumpIf target => some (String.ofList (Text.hexDigits 4 target.toNat))
  | .binary _ | .ret => none

/-- Where a jump goes when it is taken. -/
def target? : Instr → Option Nat
  | .jump target | .jumpIf target => some target.toNat
  | .const _ | .store _ | .load _ | .binary _ | .ret => none

theorem operandText?_isSome (instr : Instr) :
    instr.operandText?.isSome = instr.opcode.takesOperand := by
  cases instr <;> rfl

/-- An instruction is its opcode and its operand. -/
theorem eq_of_opcode_of_operand {a b : Instr} (ho : a.opcode = b.opcode)
    (hd : a.operand = b.operand) : a = b := by
  cases a <;> cases b <;> cases ho
  case const.const value other =>
    exact congrArg const (Int32.toInt_inj.1 (Datum.int.inj hd))
  case store.store name other =>
    exact congrArg store (String.singleton_inj.1 (Datum.text.inj hd))
  case load.load name other =>
    exact congrArg load (String.singleton_inj.1 (Datum.text.inj hd))
  case binary.binary op => rfl
  case jump.jump target other =>
    exact congrArg jump (UInt32.toNat_inj.1 (Int.ofNat.inj (Datum.int.inj hd)))
  case jumpIf.jumpIf target other =>
    exact congrArg jumpIf (UInt32.toNat_inj.1 (Int.ofNat.inj (Datum.int.inj hd)))
  case ret.ret => rfl

end Instr

end StackVM
