import StackVM.Instr

set_option autoImplicit false

/-! # Descriptions of instructions

A front end describes an instruction by an opcode, in words or by number, and an operand of any
kind. Building checks the description: first the opcode, then the kind of the operand, then its
range. Every instruction has a description, by number, from which it is built
(`RawInstr.build_ofInstr`). -/

namespace StackVM

/-- An instruction as described from outside. -/
structure RawInstr where
  op : Datum
  /-- `none` when the description has no operand, which is not the same as a null one. -/
  operand : Option Datum := none

/-- Why a description is no instruction. -/
inductive BuildError where
  | unknownOpcode (op : Datum)
  | needsName (opcode : Opcode) (operand : Datum)
  | needsInteger (opcode : Opcode) (operand : Datum)
  | constantRange (value : Int)
  | targetRange (value : Int)
  | takesNoOperand (opcode : Opcode) (operand : Datum)

namespace BuildError

/-- What a refusal finds fault with: a value of the wrong type, or a value of the right one that will
    not do. -/
inductive Kind where
  | wrongType
  | wrongValue
  deriving DecidableEq, Repr

/-- The kind of a refusal. Every value may be tried as an opcode, so an unknown one has no wrong type;
    a text that is no name has. -/
def kind : BuildError → Kind
  | .needsName _ _ | .needsInteger _ _ | .takesNoOperand _ _ => .wrongType
  | .unknownOpcode _ | .constantRange _ | .targetRange _ => .wrongValue

/-- The message of a refusal. -/
def message : BuildError → String
  | .unknownOpcode op => op.render ++ " is not a valid Opcode"
  | .needsName opcode operand =>
    opcode.mnemonic ++ " expects a one-character identifier, got " ++ operand.render
  | .needsInteger opcode operand =>
    opcode.mnemonic ++ " expects an integer operand, got " ++ operand.render
  | .constantRange value => "constant " ++ Text.decimal value ++ " does not fit in 32 bits"
  | .targetRange value =>
    "jump target " ++ Text.decimal value ++ " is not an unsigned 32-bit index"
  | .takesNoOperand opcode operand =>
    opcode.mnemonic ++ " takes no operand, got " ++ operand.render

end BuildError

namespace Opcode

/-- The opcode of a word, which tells whether an operand follows. -/
def ofKeyword? (word : String) (hasOperand : Bool) : Option Opcode :=
  all.find? fun op => op.keyword = word ∧ op.takesOperand = hasOperand

/-- The operand of `opcode` as the name of a variable. -/
def nameOperand (opcode : Opcode) : Datum → Except BuildError Char
  | .text s =>
    match s.toList with
    | [c] => .ok c
    | _ => .error (.needsName opcode (.text s))
  | operand => .error (.needsName opcode operand)

/-- The operand of `opcode` as a constant. Truth values and floating-point numbers are none. -/
def constantOperand (opcode : Opcode) : Datum → Except BuildError Int32
  | .int value =>
    if Word32.InRange value then .ok (Int32.ofInt value) else .error (.constantRange value)
  | operand => .error (.needsInteger opcode operand)

/-- The operand of `opcode` as a jump target. -/
def targetOperand (opcode : Opcode) : Datum → Except BuildError UInt32
  | .int value =>
    if Word32.IsIndex value then .ok (UInt32.ofNat value.toNat) else .error (.targetRange value)
  | operand => .error (.needsInteger opcode operand)

/-- The instruction `instr`, which has no operand. -/
def withoutOperand (instr : Instr) : Datum → Except BuildError Instr
  | .null => .ok instr
  | operand => .error (.takesNoOperand instr.opcode operand)

/-- The instruction of an opcode and an operand. -/
def instr (opcode : Opcode) (operand : Datum) : Except BuildError Instr :=
  match opcode with
  | .const => .const <$> opcode.constantOperand operand
  | .store => .store <$> opcode.nameOperand operand
  | .load => .load <$> opcode.nameOperand operand
  | .binary op => withoutOperand (.binary op) operand
  | .jump => .jump <$> opcode.targetOperand operand
  | .jumpIf => .jumpIf <$> opcode.targetOperand operand
  | .ret => withoutOperand .ret operand

end Opcode

namespace RawInstr

/-- The opcode of a description: a word, or a value that stands for the number of an opcode. -/
def opcode? (raw : RawInstr) : Option Opcode :=
  match raw.op with
  | .text word => Opcode.ofKeyword? word raw.operand.isSome
  | op => op.integer?.bind Opcode.ofCode?

/-- The instruction of a description. An absent operand counts as a null one. -/
def build (raw : RawInstr) : Except BuildError Instr :=
  match raw.opcode? with
  | some opcode => opcode.instr (raw.operand.getD .null)
  | none => .error (.unknownOpcode raw.op)

/-- The description of an instruction by the number of its opcode. -/
def ofInstr (instr : Instr) : RawInstr where
  op := .int instr.opcode.code
  operand := some instr.operand

end RawInstr

/-- The first bad description of a program and its place. -/
structure ProgramError where
  index : Nat
  error : BuildError

namespace Program

/-- Builds the descriptions of a program from the place `index` on. -/
def buildFrom (index : Nat) : List RawInstr → Except ProgramError Program
  | [] => .ok []
  | raw :: rest =>
    match raw.build with
    | .ok instr => (instr :: ·) <$> buildFrom (index + 1) rest
    | .error error => .error ⟨index, error⟩

/-- Builds a program, front to back. -/
def build (raws : List RawInstr) : Except ProgramError Program := buildFrom 0 raws

end Program

/-! ## Descriptions by number -/

theorem Opcode.constantOperand_toInt (opcode : Opcode) (value : Int32) :
    opcode.constantOperand (.int value.toInt) = .ok value := by
  simp [constantOperand, Word32.inRange_toInt]

theorem Opcode.nameOperand_singleton (opcode : Opcode) (name : Char) :
    opcode.nameOperand (.text (String.singleton name)) = .ok name := by
  simp [nameOperand]

theorem Opcode.targetOperand_toNat (opcode : Opcode) (target : UInt32) :
    opcode.targetOperand (.int target.toNat) = .ok target := by
  simp [targetOperand, Word32.isIndex_toNat]

/-- An instruction is built from its opcode and its operand. -/
theorem Opcode.instr_operand (instr : Instr) : instr.opcode.instr instr.operand = .ok instr := by
  cases instr with
  | const value => exact congrArg (Except.map Instr.const) (constantOperand_toInt _ value)
  | store name => exact congrArg (Except.map Instr.store) (nameOperand_singleton _ name)
  | load name => exact congrArg (Except.map Instr.load) (nameOperand_singleton _ name)
  | binary op => rfl
  | jump target => exact congrArg (Except.map Instr.jump) (targetOperand_toNat _ target)
  | jumpIf target => exact congrArg (Except.map Instr.jumpIf) (targetOperand_toNat _ target)
  | ret => rfl

/-- An instruction is built from its description by number. -/
theorem RawInstr.build_ofInstr (instr : Instr) : (ofInstr instr).build = .ok instr := by
  have h : (ofInstr instr).opcode? = some instr.opcode := Opcode.ofCode?_code instr.opcode
  rw [build, h]
  exact Opcode.instr_operand instr

end StackVM
