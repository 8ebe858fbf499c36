import StackVM.Machine
import StackVM.RawInstr

set_option autoImplicit false

/-! # Sessions

A session is a sequence of actions on one machine. Each action has an answer: its reply, and the
machine as it is afterwards. An action that fails leaves behind what it had done until then, and
the session goes on. -/

namespace StackVM

/-- Something to do with a machine. -/
inductive Action where
  | run (program : List RawInstr)
  | push (name : Option String) (value : Int)
  | pop (count : Int)
  | clear
  | advance (length : Int)
  | moveTo (target length : Int)
  | fetch (program : List RawInstr)
  | assignPointer (ip : Int)
  | assignStack (stack : Stack)
  | assignLimit (limit : Option Int)
  | setTracing (on : Bool)

/-- What an action comes to. -/
inductive Reply where
  | done
  | result (value : Int)
  | cells (popped : List Cell)
  | instr (instr : Instr)
  | fault (fault : Fault)
  | refused (error : ProgramError)

/-- The reply of an operation, or its fault. -/
def Reply.ofExcept {α : Type} (reply : α → Reply) : Except Fault α → Reply
  | .ok value => reply value
  | .error reason => .fault reason

/-- The reply to a run. -/
def Reply.ofEnding : Ending → Reply
  | .result value => .result value
  | .fault reason => .fault reason

/-- The reply to an action and the machine after it. The trace is there while tracing is on. -/
structure Answer where
  reply : Reply
  ip : Int
  stack : Stack
  trace : Option (List String)

/-- The answer of an action that leaves `machine` and wrote `lines`. -/
def Machine.answer (machine : Machine) (reply : Reply) (lines : List String) : Answer where
  reply := reply
  ip := machine.ip
  stack := machine.stack
  trace := if machine.tracing then some lines else none

/-- What an action does: its reply, the lines it writes and the machine after it. -/
structure Outcome where
  reply : Reply
  machine : Machine
  lines : List String := []

namespace Machine

/-- Does one action. There is no outcome when a run does not end within the budget. -/
def act (machine : Machine) (budget : Nat) : Action → Option Outcome
  | .run raws =>
    match Program.build raws with
    | .error error => some { reply := .refused error, machine }
    | .ok program =>
      (machine.run program budget).map fun (report, after) =>
        { reply := .ofEnding report.ending
          machine := after
          lines := machine.lines program report }
  | .push name value =>
    match machine.push name value with
    | .ok after => some { reply := .done, machine := after }
    | .error fault => some { reply := .fault fault, machine }
  | .pop count =>
    let (cells, after) := machine.pop count
    some { reply := .ofExcept .cells cells, machine := after }
  | .clear => some { reply := .done, machine := machine.clear }
  | .advance length =>
    let (moved, after) := machine.advance length
    some { reply := .ofExcept (fun _ => .done) moved, machine := after }
  | .moveTo target length =>
    let (moved, after) := machine.moveTo target length
    some { reply := .ofExcept (fun _ => .done) moved, machine := after }
  | .fetch raws =>
    match Program.build raws with
    | .error error => some { reply := .refused error, machine }
    | .ok program => some { reply := .ofExcept .instr (machine.fetch program), machine }
  | .assignPointer ip => some { reply := .done, machine := { machine with ip } }
  | .assignStack stack => some { reply := .done, machine := { machine with stack } }
  | .assignLimit limit => some { reply := .done, machine := { machine with limit } }
  | .setTracing on => some { reply := .done, machine := { machine with tracing := on } }

/-- The answers to a sequence of actions, and the machine after them. -/
def session (machine : Machine) (budget : Nat) : List Action → Option (List Answer × Machine)
  | [] => some ([], machine)
  | action :: rest => do
    let outcome ← machine.act budget action
    let (answers, last) ← outcome.machine.session budget rest
    return (outcome.machine.answer outcome.reply outcome.lines :: answers, last)

end Machine

end StackVM
