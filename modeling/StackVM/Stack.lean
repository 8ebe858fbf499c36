import StackVM.Fault

set_option autoImplicit false

/-! # The stack

One stack holds both operands and variables. An operand is a cell without a name, a variable a cell
with one; writing a variable changes the cells of its name where they are, reading it takes the
lowest of them. A limit bounds the growth of the stack, not the writing of variables. -/

namespace StackVM

/-- A place of the stack. -/
structure Cell where
  name : Option String
  value : Int
  deriving DecidableEq, Repr

namespace Cell

/-- Whether the cell is an operand. -/
def isAnonymous (cell : Cell) : Bool := cell.name.isNone

/-- Whether the cell belongs to the variable `name`. -/
def isNamed (name : String) (cell : Cell) : Bool := cell.name = some name

/-- The cell with another value if it belongs to the variable `name`. -/
def assign (name : String) (value : Int) (cell : Cell) : Cell :=
  if cell.isNamed name then { cell with value } else cell

theorem name_assign (name : String) (value : Int) (cell : Cell) :
    (cell.assign name value).name = cell.name := by
  unfold assign
  split <;> rfl

end Cell

/-- Cells, the top of the stack first. -/
abbrev Stack := List Cell

namespace Stack

/-- Whether a variable is on the stack. -/
def holds (name : String) (s : Stack) : Bool := s.any (·.isNamed name)

/-- Writes a value to every cell of a variable. -/
def assign (name : String) (value : Int) (s : Stack) : Stack := s.map (·.assign name value)

/-- The value of a variable, from its lowest cell. -/
def lookup (name : String) (s : Stack) : Option Int :=
  (s.reverse.find? (·.isNamed name)).map (·.value)

/-- Whether the stack has no place left. No limit is ever reached when there is none. -/
def isFull (limit : Option Int) (s : Stack) : Bool := limit.any fun (m : Int) => m ≤ s.length

/-- Puts a cell on top, unless the stack is full. -/
def append (limit : Option Int) (cell : Cell) (s : Stack) : Except Fault Stack :=
  if s.isFull limit then .error { kind := .stackOverflow } else .ok (cell :: s)

/-- Writes a variable that is on the stack in place; puts anything else on top. A failure leaves the
    stack as it was. -/
def push (limit : Option Int) (name : Option String) (value : Int) (s : Stack) :
    Except Fault Stack :=
  match name with
  | none => s.append limit ⟨none, value⟩
  | some x => if s.holds x then .ok (s.assign x value) else s.append limit ⟨some x, value⟩

/-- Takes cells from the top one at a time, the top first. The cells taken before the stack turned
    out too small stay taken. -/
def pop : Nat → Stack → Except Fault (List Cell) × Stack
  | 0, s => (.ok [], s)
  | _ + 1, [] => (.error { kind := .stackUnderflow }, [])
  | count + 1, cell :: s =>
    let (cells, rest) := pop count s
    ((cell :: ·) <$> cells, rest)

theorem length_assign (name : String) (value : Int) (s : Stack) :
    (s.assign name value).length = s.length :=
  List.length_map ..

theorem map_name_assign (name : String) (value : Int) (s : Stack) :
    (s.assign name value).map Cell.name = s.map Cell.name := by
  simp [assign, Cell.name_assign]

theorem holds_eq_true_iff {name : String} {s : Stack} :
    s.holds name = true ↔ some name ∈ s.map Cell.name := by
  simp [holds, Cell.isNamed]

end Stack

end StackVM
