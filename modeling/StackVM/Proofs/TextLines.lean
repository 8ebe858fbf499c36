import StackVM.Text.Printable

set_option autoImplicit false

/-! # Lines of a text

A text is divided into lines at the characters that end a line, none of which is printable. Lines
without such characters, written one after the other, are the lines of what is written
(`Text.linesOf_written`). -/

namespace StackVM.Text

/-- The characters that end a line. -/
def lineBoundaries : List Char :=
  ['\n', '\x0b', '\x0c', '\r', '\x1c', '\x1d', '\x1e', '\u0085', '\u2028', '\u2029']

/-- Puts a character in front of the first line. -/
def consFirst (c : Char) : List (List Char) → List (List Char)
  | [] => [[c]]
  | line :: lines => (c :: line) :: lines

/-- The lines of a text, without what ends them. A carriage return and a newline end one line
    together, and the end of the last line begins no other. -/
def splitLines : List Char → List (List Char)
  | [] => []
  | '\r' :: '\n' :: rest => [] :: splitLines rest
  | c :: rest => if c ∈ lineBoundaries then [] :: splitLines rest else consFirst c (splitLines rest)

/-- The lines of a text. -/
def linesOf (text : String) : List String := (splitLines text.toList).map String.ofList

/-- The text that is written when every line is followed by a newline. -/
def written (lines : List String) : String :=
  String.ofList (lines.flatMap fun line => line.toList ++ ['\n'])

variable {c : Char} {line rest : List Char}

theorem not_mem_lineBoundaries (h : isPrintable c = true) : c ∉ lineBoundaries := by
  have hall : lineBoundaries.all (fun c => !isPrintable c) = true := by decide +kernel
  intro hc
  have hno := List.all_eq_true.1 hall c hc
  rw [h] at hno
  cases hno

theorem splitLines_of_not_boundary (h : c ∉ lineBoundaries) :
    splitLines (c :: rest) = consFirst c (splitLines rest) := by
  rw [splitLines, if_neg h]
  rintro _ rfl -
  exact h (by decide)

/-- A line ends at the first newline when nothing in it ends a line. -/
theorem splitLines_append_newline (h : ∀ c ∈ line, c ∉ lineBoundaries) :
    splitLines (line ++ '\n' :: rest) = line :: splitLines rest := by
  induction line with
  | nil => rfl
  | cons c line ih =>
    obtain ⟨hc, hline⟩ := List.forall_mem_cons.1 h
    rw [List.cons_append, splitLines_of_not_boundary hc, ih hline, consFirst]

/-- Lines that hold no character that ends a line are the lines of the text they are written to. -/
theorem linesOf_written {lines : List String}
    (h : ∀ line ∈ lines, ∀ c ∈ line.toList, c ∉ lineBoundaries) :
    linesOf (written lines) = lines := by
  rw [linesOf, written, String.toList_ofList]
  induction lines with
  | nil => rfl
  | cons line lines ih =>
    obtain ⟨hline, hlines⟩ := List.forall_mem_cons.1 h
    rw [List.flatMap_cons, List.append_assoc, List.singleton_append,
      splitLines_append_newline hline, List.map_cons, ih hlines, String.ofList_toList]

end StackVM.Text
