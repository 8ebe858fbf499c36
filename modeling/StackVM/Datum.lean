import StackVM.Numeric.Layout
import StackVM.Text.Numeral
import StackVM.Text.Quoted

set_option autoImplicit false

/-! # Data from outside

A value as a front end hands it over, before it is known to be an opcode, an operand or a kind of
fault. Messages about a refused value show its text. -/

namespace StackVM

/-- A value of unknown kind. The members of an object stand in the order they were given. -/
inductive Datum where
  | null
  | bool (b : Bool)
  | int (i : Int)
  | float (x : Binary64)
  | text (s : String)
  | list (items : List Datum)
  | object (members : List (String × Datum))
  deriving Repr

namespace Datum

/-- Floating-point numbers are written out from 0.0001 up to sixteen digits before the point. -/
def floatLayout : Layout where
  leastPoint := -3
  greatestPoint := 16
  exponentDigits := 2

mutual

/-- The text of a value, as messages show it. -/
def render : Datum → String
  | .null => "None"
  | .bool b => if b then "True" else "False"
  | .int i => Text.decimal i
  | .float x => floatLayout.render x
  | .text s => Text.quoted s
  | .list items => "[" ++ ", ".intercalate (renderItems items) ++ "]"
  | .object members => "\x7b" ++ ", ".intercalate (renderMembers members) ++ "\x7d"

/-- The texts of the items of a list. -/
def renderItems : List Datum → List String
  | [] => []
  | item :: rest => item.render :: renderItems rest

/-- The texts of the members of an object, each key before its value. -/
def renderMembers : List (String × Datum) → List String
  | [] => []
  | (key, value) :: rest => (Text.quoted key ++ ": " ++ value.render) :: renderMembers rest

end

/-- The integer a value stands for where a number is looked up: an integer itself, a truth value as
    0 or 1, a floating-point number when it is whole. -/
def integer? : Datum → Option Int
  | .bool b => some (if b then 1 else 0)
  | .int i => some i
  | .float x => x.integer?
  | .null | .text _ | .list _ | .object _ => none

end Datum

end StackVM
