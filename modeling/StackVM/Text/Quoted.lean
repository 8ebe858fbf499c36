import StackVM.Text.Numeral
import StackVM.Text.Printable

set_option autoImplicit false

/-! # Quoted text

Text between two equal delimiters, on one line. The delimiter and the backslash are escaped, so the
first bare delimiter ends the text; characters that do not print are written by number. Apostrophes
delimit, unless the text holds one of them and no quotation mark. -/

namespace StackVM.Text

/-- The apostrophe, the usual delimiter. -/
def apostrophe : Char := '\x27'

/-- The quotation mark, the delimiter of a text with apostrophes. -/
def quotationMark : Char := '\x22'

/-- The delimiter of a text. -/
def delimiter (text : List Char) : Char :=
  if apostrophe ∈ text ∧ quotationMark ∉ text then quotationMark else apostrophe

/-- An escape by number: two, four or eight digits, the fewest that hold the code point. -/
def numericEscape (n : Nat) : List Char :=
  if n < 0x100 then '\\' :: 'x' :: hexDigits 2 n
  else if n < 0x10000 then '\\' :: 'u' :: hexDigits 4 n
  else '\\' :: 'U' :: hexDigits 8 n

/-- One character between delimiters `delim`. -/
def escapeChar (delim c : Char) : List Char :=
  if c = '\\' ∨ c = delim then ['\\', c]
  else if c = '\n' then ['\\', 'n']
  else if c = '\r' then ['\\', 'r']
  else if c = '\t' then ['\\', 't']
  else if isPrintable c then [c]
  else numericEscape c.toNat

/-- The characters of a quoted text. -/
def quotedChars (text : List Char) : List Char :=
  let delim := delimiter text
  delim :: (text.flatMap (escapeChar delim) ++ [delim])

/-- A text between delimiters, escaped where it has to be. -/
def quoted (text : String) : String := String.ofList (quotedChars text.toList)

example : quotedChars ['a', '\n'] = [apostrophe, 'a', '\\', 'n', apostrophe] := by decide +kernel

example : quotedChars [apostrophe] = [quotationMark, apostrophe, quotationMark] := by
  decide +kernel

end StackVM.Text
