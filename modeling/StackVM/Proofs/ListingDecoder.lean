import StackVM.Machine
import StackVM.RawInstr
import StackVM.Proofs.QuotedText
import StackVM.Proofs.TextLines

set_option autoImplicit false

/-! # Reading listings

A line of a listing has its place up to the first space and the name of its opcode up to the second,
since neither holds a space itself, and what is behind is the operand. So every line reads back as
the place and the instruction it is written for (`Instr.ofLine?_line`), whatever the name of a
variable is. All of a line is printable (`Instr.isPrintable_of_mem_line`), so it stays one line of
any text that it is written to. -/

namespace StackVM

/-! ## Fields -/

namespace Text

/-- The part of a text before the first space and the part behind it. -/
def cut (cs : List Char) : List Char × List Char :=
  (cs.takeWhile (· ≠ ' '), (cs.dropWhile (· ≠ ' ')).drop 1)

variable {cs rest : List Char}

theorem cut_append (h : ' ' ∉ cs) (rest : List Char) :
    cut (cs ++ rest) = (cs ++ (cut rest).1, (cut rest).2) := by
  have hcs : ∀ c ∈ cs, decide (c ≠ ' ') = true :=
    fun c hc => decide_eq_true fun hspace => h (hspace ▸ hc)
  rw [cut, List.takeWhile_append_of_pos hcs, List.dropWhile_append_of_pos hcs]
  rfl

/-- A field ends at the first space. -/
theorem cut_field (h : ' ' ∉ cs) : cut (cs ++ ' ' :: rest) = (cs, rest) := by
  rw [cut_append h]
  exact congrArg (·, rest) (List.append_nil cs)

theorem cut_last_field (h : ' ' ∉ cs) : cut cs = (cs, []) := by
  simpa [cut] using cut_append h []

end Text

/-! ## Opcodes and operands -/

namespace Opcode

/-- The opcode of a name in listings. -/
def ofMnemonic? (word : String) : Option Opcode := all.find? fun op => op.mnemonic = word

/-- The operand that a text in a listing stands for. -/
def readOperand (opcode : Opcode) (text : List Char) : Datum :=
  match opcode with
  | .const => .int (Text.ofSigned 10 text)
  | .store | .load => .text (String.ofList (Text.unquote text))
  | .jump | .jumpIf => .int (Text.ofDigits 16 text)
  | .binary _ | .ret => .null

theorem ofMnemonic?_mnemonic (op : Opcode) : ofMnemonic? op.mnemonic = some op := by
  cases op with
  | binary op => cases op <;> decide
  | _ => decide

theorem space_not_mem_mnemonic (op : Opcode) : ' ' ∉ op.mnemonic.toList := by
  cases op with
  | binary op => cases op <;> decide
  | _ => decide

theorem isPrintable_of_mem_mnemonic {op : Opcode} {c : Char} (h : c ∈ op.mnemonic.toList) :
    Text.isPrintable c = true := by
  have hall : op.mnemonic.toList.all Text.isPlain = true := by
    cases op with
    | binary op => cases op <;> decide
    | _ => decide
  exact Text.isPrintable_of_isPlain (List.all_eq_true.1 hall c h)

end Opcode

namespace Instr

/-- The operand as listings show it, nothing when there is none. -/
def operandChars (instr : Instr) : List Char := (instr.operandText?.getD "").toList

/-- An operand reads back from its text. -/
theorem readOperand_operandChars (instr : Instr) :
    instr.opcode.readOperand instr.operandChars = instr.operand := by
  have hname (name : Char) :
      String.ofList (Text.unquote (Text.quoted (String.singleton name)).toList) =
        String.singleton name := by
    rw [Text.quoted, String.toList_ofList, Text.unquote_quotedChars, String.ofList_toList]
  have hconst (value : Int32) :
      Text.ofSigned 10 (Text.decimal value.toInt).toList = value.toInt := by
    rw [Text.decimal, String.toList_ofList, Text.ofSigned_signedDecimal]
  have htarget (target : UInt32) :
      Text.ofDigits 16 (String.ofList (Text.hexDigits 4 target.toNat)).toList = target.toNat := by
    rw [String.toList_ofList, Text.ofDigits_hexDigits]
  cases instr with
  | const value => exact congrArg Datum.int (hconst value)
  | store name | load name => exact congrArg Datum.text (hname name)
  | jump target | jumpIf target => exact congrArg (fun n : Nat => Datum.int n) (htarget target)
  | binary _ | ret => rfl

theorem isPrintable_of_mem_operandChars {instr : Instr} {c : Char} (h : c ∈ instr.operandChars) :
    Text.isPrintable c = true := by
  cases instr with
  | const value =>
    have hc : c ∈ Text.signedDecimal value.toInt := by
      simpa only [operandChars, operandText?, Option.getD_some, Text.decimal,
        String.toList_ofList] using h
    exact Text.isPrintable_of_numeral (Text.mem_of_mem_signedDecimal hc)
  | store name | load name =>
    have hc : c ∈ Text.quotedChars (String.singleton name).toList := by
      simpa only [operandChars, operandText?, Option.getD_some, Text.quoted,
        String.toList_ofList] using h
    exact Text.isPrintable_of_mem_quotedChars hc
  | jump target | jumpIf target =>
    have hc : c ∈ Text.hexDigits 4 target.toNat := by
      simpa only [operandChars, operandText?, Option.getD_some, String.toList_ofList] using h
    exact Text.isPrintable_digit (Text.mem_digits_of_mem_hexDigits hc)
  | binary _ | ret => exact absurd h List.not_mem_nil

/-! ## Lines -/

/-- The place and the instruction of a line, none when no instruction is on it. -/
def ofLine? (line : String) : Option (Int × Instr) :=
  let (place, rest) := Text.cut line.toList
  let (mnemonic, operand) := Text.cut rest
  (Opcode.ofMnemonic? (String.ofList mnemonic)).bind fun opcode =>
    (opcode.instr (opcode.readOperand operand)).toOption.map fun instr =>
      (Text.ofSigned 16 place, instr)

variable {i j place : Int} {instr a b : Instr} {c : Char}

/-- The part of a line behind the space that follows the place. -/
def body (instr : Instr) : List Char :=
  instr.opcode.mnemonic.toList ++
    if instr.opcode.takesOperand then ' ' :: instr.operandChars else []

theorem toList_line (place : Int) (instr : Instr) :
    (instr.line place).toList = Text.signedHex 4 place ++ ' ' :: instr.body := by
  cases instr <;> simp [line, body, operandText?, operandChars, opcode, Opcode.takesOperand]

theorem cut_body (instr : Instr) :
    Text.cut instr.body = (instr.opcode.mnemonic.toList, instr.operandChars) := by
  have hspace := Opcode.space_not_mem_mnemonic instr.opcode
  unfold body
  split
  · exact Text.cut_field hspace
  · next hnone =>
    have hchars : instr.operandChars = [] := by
      rw [← operandText?_isSome, Bool.not_eq_true, Option.isSome_eq_false_iff,
        Option.isNone_iff_eq_none] at hnone
      rw [operandChars, hnone]
      rfl
    rw [List.append_nil, hchars]
    exact Text.cut_last_field hspace

/-- A line reads back as the place and the instruction it is written for. -/
theorem ofLine?_line (place : Int) (instr : Instr) :
    ofLine? (instr.line place) = some (place, instr) := by
  have hplace : Text.cut (instr.line place).toList = (Text.signedHex 4 place, instr.body) := by
    rw [toList_line, Text.cut_field (Text.space_not_mem_signedHex 4 place)]
  have hopcode : Opcode.ofMnemonic? (String.ofList instr.opcode.mnemonic.toList) =
      some instr.opcode := by
    rw [String.ofList_toList, Opcode.ofMnemonic?_mnemonic]
  simp only [ofLine?, hplace, cut_body, hopcode, Option.bind_some, readOperand_operandChars,
    Opcode.instr_operand, Except.toOption, Option.map_some, Text.ofSigned_signedHex]

theorem line_inj (h : a.line i = b.line j) : i = j ∧ a = b := by
  have hread := congrArg ofLine? h
  rw [ofLine?_line, ofLine?_line] at hread
  exact Prod.mk.inj (Option.some.inj hread)

/-- Nothing on a line ends it: all of it is printable, the quoted name of a variable too. -/
theorem isPrintable_of_mem_line (h : c ∈ (instr.line place).toList) :
    Text.isPrintable c = true := by
  have hspace : Text.isPrintable ' ' = true := Text.isPrintable_of_isPlain rfl
  rw [toList_line, List.mem_append, List.mem_cons, body, List.mem_append] at h
  rcases h with hplace | rfl | hmnemonic | hoperand
  · exact Text.isPrintable_of_numeral (Text.mem_of_mem_signedHex hplace)
  · exact hspace
  · exact Opcode.isPrintable_of_mem_mnemonic hmnemonic
  · split at hoperand
    · rcases List.mem_cons.1 hoperand with rfl | hoperand
      · exact hspace
      · exact isPrintable_of_mem_operandChars hoperand
    · exact absurd hoperand List.not_mem_nil

end Instr

/-! ## Listings and traces -/

namespace Program

variable {program p q : Program}

/-- A program is determined by its listing. -/
theorem listing_inj (h : p.listing = q.listing) : p = q := by
  apply List.ext_getElem?
  intro place
  have hline := congrArg (·[place]?) h
  simp only [getElem?_listing, line?] at hline
  exact Option.map_injective (fun a b hab => (Instr.line_inj hab).2) hline

/-- The lines of a path can be told apart in the text of them. -/
theorem linesOf_trace (program : Program) (path : List Nat) :
    Text.linesOf (Text.written (program.trace path)) = program.trace path := by
  apply Text.linesOf_written
  intro line hline c hc
  obtain ⟨place, -, hplace⟩ := List.mem_filterMap.1 hline
  obtain ⟨instr, -, rfl⟩ := Option.map_eq_some_iff.1 hplace
  exact Text.not_mem_lineBoundaries (Instr.isPrintable_of_mem_line hc)

end Program

/-- **Listings can be read back.** A line determines its place and its instruction, and a listing
    its program. No line holds a character that ends lines, so the text of the lines of any path is
    divided into these lines, and the text that a run writes into the lines of the run. -/
theorem Machine.lines_decodable :
    (∀ (place : Int) (instr : Instr), Instr.ofLine? (instr.line place) = some (place, instr)) ∧
    (∀ (i j : Int) (a b : Instr), a.line i = b.line j → i = j ∧ a = b) ∧
    (∀ p q : Program, p.listing = q.listing → p = q) ∧
    (∀ (place : Int) (instr : Instr), ∀ c ∈ (instr.line place).toList, c ∉ Text.lineBoundaries) ∧
    (∀ (program : Program) (path : List Nat),
      Text.linesOf (Text.written (program.trace path)) = program.trace path) ∧
    ∀ (machine : Machine) (program : Program) (report : Report),
      Text.linesOf (Text.written (machine.lines program report)) =
        machine.lines program report := by
  refine ⟨Instr.ofLine?_line, fun i j a b => Instr.line_inj, fun p q => Program.listing_inj,
    fun place instr c hc => Text.not_mem_lineBoundaries (Instr.isPrintable_of_mem_line hc),
    Program.linesOf_trace, ?_⟩
  intro machine program report
  rw [lines]
  split
  · exact Program.linesOf_trace program report.path
  · rfl

/-- A line before the beginning, of the opcode whose name begins with that of another. -/
theorem Machine.lines_decodable_of_negativePlace :
    (Instr.jumpIf 65536).line (-10) = "-00a JMP_IF 10000" ∧
    Instr.ofLine? "-00a JMP_IF 10000" = some (-10, .jumpIf 65536) ∧
    ((-10 : Int) = -0xa ∧ Instr.jumpIf 65536 = .jumpIf 0x10000) ∧
    ([.jumpIf 65536] : Program) = [.jumpIf 0x10000] := by
  have hline : (Instr.jumpIf 65536).line (-10) = "-00a JMP_IF 10000" := by decide +kernel
  refine ⟨hline, ?_, lines_decodable.2.1 _ _ _ _ rfl, lines_decodable.2.2.1 _ _ rfl⟩
  rw [← hline]
  exact lines_decodable.1 (-10) (.jumpIf 65536)

end StackVM
