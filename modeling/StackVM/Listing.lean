import StackVM.Instr

set_option autoImplicit false

/-! # Listings

A listing shows a program one instruction to a line: its place, its name and its operand if it has
one. -/

namespace StackVM

/-- An instruction at a place of a program. The place is in hexadecimal, at least four characters
    wide. -/
def Instr.line (place : Int) (instr : Instr) : String :=
  let head := String.ofList (Text.signedHex 4 place) ++ " " ++ instr.opcode.mnemonic
  match instr.operandText? with
  | none => head
  | some operand => head ++ " " ++ operand

/-- The lines of a program, from place 0 on. -/
def Program.listing (program : Program) : List String :=
  program.mapIdx fun place instr => instr.line place

/-- The line of one place of a program, if the place is in it. -/
def Program.line? (program : Program) (place : Nat) : Option String :=
  program[place]?.map (·.line place)

theorem Program.getElem?_listing (program : Program) (place : Nat) :
    program.listing[place]? = program.line? place :=
  List.getElem?_mapIdx ..

end StackVM
