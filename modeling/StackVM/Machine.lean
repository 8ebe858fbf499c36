import StackVM.Run

set_option autoImplicit false

/-! # The machine

What lasts from one run to the next: a pointer, a stack, the limit of the stack, and whether the
lines of executed instructions are wanted. Between runs each part can be used on its own, and
nothing keeps the pointer inside a program or the stack inside its limit. -/

namespace StackVM

/-- A machine. -/
structure Machine where
  ip : Int := 0
  stack : Stack := []
  limit : Option Int := none
  tracing : Bool := false
  deriving DecidableEq, Repr

/-- A limit that leaves no place for a cell. -/
structure BadLimit where
  limit : Int
  deriving DecidableEq, Repr

/-- The message about a limit that is refused. -/
def BadLimit.message (bad : BadLimit) : String :=
  "max_stack must be positive, got " ++ Text.decimal bad.limit

namespace Machine

/-- A new machine, with an empty stack and the pointer at 0. -/
def create (limit : Option Int) (tracing : Bool) : Except BadLimit Machine :=
  match limit with
  | none => .ok { tracing }
  | some m => if m < 1 then .error ⟨m⟩ else .ok { limit, tracing }

/-- Pushes a value; a failure changes nothing. -/
def push (machine : Machine) (name : Option String) (value : Int) : Except Fault Machine :=
  ({ machine with stack := · }) <$> Stack.push machine.limit name value machine.stack

/-- Pops `count` cells, and none when `count` is negative. -/
def pop (machine : Machine) (count : Int) : Except Fault (List Cell) × Machine :=
  let (cells, rest) := Stack.pop count.toNat machine.stack
  (cells, { machine with stack := rest })

/-- Empties the stack. -/
def clear (machine : Machine) : Machine := { machine with stack := [] }

/-- Moves the pointer, which is a fault when it is not before `length`. The pointer stays where it
    was moved. -/
def moveTo (machine : Machine) (target length : Int) : Except Fault Unit × Machine :=
  (if target < length then .ok () else .error { kind := .invalidPointer },
    { machine with ip := target })

/-- Moves the pointer to the next place. -/
def advance (machine : Machine) (length : Int) : Except Fault Unit × Machine :=
  machine.moveTo (machine.ip + 1) length

/-- The instruction that the pointer is at. -/
def fetch (machine : Machine) (program : Program) : Except Fault Instr :=
  if machine.ip < 0 then .error { kind := .invalidPointer }
  else
    match program[machine.ip.toNat]? with
    | some instr => .ok instr
    | none => .error { kind := .invalidPointer }

/-- Runs a program: its report and the machine after it. What the machine held before is lost. -/
def run (machine : Machine) (program : Program) (budget : Nat) : Option (Report × Machine) :=
  (program.run machine.limit budget).map fun report =>
    (report, { machine with ip := report.final.pc, stack := report.final.stack })

/-- The lines that a run writes. -/
def lines (machine : Machine) (program : Program) (report : Report) : List String :=
  if machine.tracing then program.trace report.path else []

end Machine

end StackVM
