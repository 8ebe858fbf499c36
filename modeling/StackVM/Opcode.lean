set_option autoImplicit false

/-! # Opcodes

The fifteen operations of the machine, their numbers and their names. -/

namespace StackVM

/-- An operation on the two topmost values. -/
inductive BinaryOp where
  | add | sub | mul | div | gt | lt | eq | ge | le
  deriving DecidableEq, Repr

/-- What an instruction does, apart from its operand. -/
inductive Opcode where
  | const
  | store
  | load
  | binary (op : BinaryOp)
  | jump
  | jumpIf
  | ret
  deriving DecidableEq, Repr

namespace Opcode

/-- Every opcode, in the order of their numbers. -/
def all : List Opcode :=
  [.const, .store, .load, .binary .add, .binary .sub, .binary .mul, .binary .div, .binary .gt,
   .binary .lt, .binary .eq, .binary .ge, .binary .le, .jump, .jumpIf, .ret]

/-- The number of an opcode. -/
def code : Opcode → Nat
  | .const => 0
  | .store => 1
  | .load => 2
  | .binary .add => 3
  | .binary .sub => 4
  | .binary .mul => 5
  | .binary .div => 6
  | .binary .gt => 7
  | .binary .lt => 8
  | .binary .eq => 9
  | .binary .ge => 10
  | .binary .le => 11
  | .jump => 12
  | .jumpIf => 13
  | .ret => 14

/-- The name of an opcode in listings and messages. -/
def mnemonic : Opcode → String
  | .const => "CONST"
  | .store => "STORE"
  | .load => "LOAD"
  | .binary .add => "ADD"
  | .binary .sub => "SUB"
  | .binary .mul => "MUL"
  | .binary .div => "DIV"
  | .binary .gt => "GT"
  | .binary .lt => "LT"
  | .binary .eq => "EQ"
  | .binary .ge => "GE"
  | .binary .le => "LE"
  | .jump => "JMP"
  | .jumpIf => "JMP_IF"
  | .ret => "RET"

/-- Whether an instruction of this opcode has an operand. -/
def takesOperand : Opcode → Bool
  | .const | .store | .load | .jump | .jumpIf => true
  | .binary _ | .ret => false

/-- The word for an opcode in instruction descriptions: in lower case when an operand belongs to
    it, otherwise its mnemonic. -/
def keyword : Opcode → String
  | .const => "const"
  | .store => "store"
  | .load => "load"
  | .jump => "jmp"
  | .jumpIf => "jmp_if"
  | op => op.mnemonic

/-- The opcode of a number. -/
def ofCode? (i : Int) : Option Opcode := all.find? fun op => op.code = i

theorem mem_all (op : Opcode) : op ∈ all := by
  cases op with
  | binary op => cases op <;> decide
  | _ => decide

theorem all_map_code : all.map code = List.range 15 := by decide

theorem ofCode?_code (op : Opcode) : ofCode? op.code = some op := by
  cases op with
  | binary op => cases op <;> decide
  | _ => decide

theorem code_of_ofCode? {i : Int} {op : Opcode} (h : ofCode? i = some op) :
    (op.code : Int) = i := by
  simpa using List.find?_some h

end Opcode

end StackVM
