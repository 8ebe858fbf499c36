import StackVM.Datum

set_option autoImplicit false

/-! # Faults

What ends a run without a result. Only a fault about a variable names one when the machine raises
it, but as a value every kind of fault may carry a name. -/

namespace StackVM

/-- The kinds of faults. -/
inductive FaultKind where
  | stackUnderflow
  | stackOverflow
  | unknownVariable
  | invalidPointer
  | divisionByZero
  deriving DecidableEq, Repr

namespace FaultKind

/-- Every kind, in the order of listing. -/
def all : List FaultKind :=
  [.stackUnderflow, .stackOverflow, .unknownVariable, .invalidPointer, .divisionByZero]

/-- The symbol of a kind. -/
def symbol : FaultKind → String
  | .stackUnderflow => "STACK_UNDERFLOW"
  | .stackOverflow => "STACK_OVERFLOW"
  | .unknownVariable => "UNKNOWN_VARIABLE"
  | .invalidPointer => "INVALID_POINTER_ADDRESS"
  | .divisionByZero => "DIVISION_BY_ZERO"

/-- A kind in plain words. -/
def text : FaultKind → String
  | .stackUnderflow => "stack underflow"
  | .stackOverflow => "stack overflow"
  | .unknownVariable => "unknown variable"
  | .invalidPointer => "invalid pointer address"
  | .divisionByZero => "division by zero"

/-- A value that is the text of no kind. -/
structure Unknown where
  given : Datum

/-- The message about a value that is the text of no kind. -/
def Unknown.message (unknown : Unknown) : String :=
  unknown.given.render ++ " is not a valid ErrorKind"

/-- The kind of a text. -/
def ofText? (s : String) : Option FaultKind := all.find? fun kind => kind.text = s

/-- The kind that a value from outside is the text of. -/
def ofDatum : Datum → Except Unknown FaultKind
  | .text s =>
    match ofText? s with
    | some kind => .ok kind
    | none => .error ⟨.text s⟩
  | given => .error ⟨given⟩

theorem ofText?_text (kind : FaultKind) : ofText? kind.text = some kind := by
  cases kind <;> decide

end FaultKind

/-- A fault, with the variable it is about when there is one. -/
structure Fault where
  kind : FaultKind
  name : Option String := none
  deriving DecidableEq, Repr

namespace Fault

/-- The message of a fault. A name stands in it as it is, between backquotes. -/
def message (fault : Fault) : String :=
  match fault.name with
  | none => "error: " ++ fault.kind.text
  | some name => "error: " ++ fault.kind.text ++ " \x60" ++ name ++ "\x60"

/-- A fault as a value shows itself. A name is quoted in it. -/
def display (fault : Fault) : String :=
  match fault.name with
  | none => "InterpreterError(" ++ fault.kind.symbol ++ ")"
  | some name => "InterpreterError(" ++ fault.kind.symbol ++ ", " ++ Text.quoted name ++ ")"

end Fault

end StackVM
