import StackVM.Session

set_option autoImplicit false

/-! # What descriptions build

A description denotes its opcode by a word or by a number (`RawInstr.Denotes`), and its operand has to
be one that belongs to the opcode (`Opcode.Accepts`). It builds an instruction exactly if that has the
opcode it denotes and the operand it gives (`RawInstr.build_eq_ok_iff`), so the description by number
is a canonical form, and in which way the opcode is denoted makes no other difference
(`RawInstr.build_byWord`). A refusal tells a value of the wrong type from one that is out of range
(`RawInstr.kind_of_build`). A program is built piece by piece; its error is that of the first piece that
has one (`Program.build_eq_error_iff`). -/

namespace StackVM

/-! ## Results and texts -/

theorem exists_of_map_eq_ok {ε α β : Type} {f : α → β} {e : Except ε α} {b : β}
    (h : f <$> e = .ok b) : ∃ a, e = .ok a ∧ f a = b := by
  cases e with
  | ok a => exact ⟨a, rfl, Except.ok.inj h⟩
  | error reason => cases h

theorem eq_error_of_map_eq_error {ε α β : Type} {f : α → β} {e : Except ε α} {reason : ε}
    (h : f <$> e = .error reason) : e = .error reason := by
  cases e with
  | ok a => cases h
  | error other => exact congrArg _ (Except.error.inj h)

theorem Text.exists_singleton_of_length {name : String} (h : name.length = 1) :
    ∃ c, name = String.singleton c := by
  rw [← String.length_toList, List.length_eq_one_iff] at h
  obtain ⟨c, hc⟩ := h
  exact ⟨c, String.toList_inj.1 (hc.trans (String.toList_singleton c).symm)⟩

/-! ## Opcodes -/

namespace Opcode

variable {op : Opcode}

theorem ofCode?_eq_some_iff {i : Int} : ofCode? i = some op ↔ i = op.code := by
  constructor
  · intro h
    exact (code_of_ofCode? h).symm
  · rintro rfl
    exact ofCode?_code op

theorem code_injective : Function.Injective code := by
  intro a b h
  have hread := congrArg (fun n : Nat => ofCode? n) h
  simpa only [ofCode?_code, Option.some.injEq] using hread

theorem ofKeyword?_keyword (op : Opcode) : ofKeyword? op.keyword op.takesOperand = some op := by
  cases op with
  | binary op => cases op <;> decide
  | _ => decide

theorem ofKeyword?_eq_some_iff {word : String} {hasOperand : Bool} :
    ofKeyword? word hasOperand = some op ↔ word = op.keyword ∧ hasOperand = op.takesOperand := by
  constructor
  · intro h
    have hfound := List.find?_some h
    rw [decide_eq_true_eq] at hfound
    exact ⟨hfound.1.symm, hfound.2.symm⟩
  · rintro ⟨rfl, rfl⟩
    exact ofKeyword?_keyword op

/-! ## Operands -/

/-- The operands that belong to an opcode: a constant is a signed 32-bit integer, the name of a
    variable one character, a jump target an unsigned 32-bit integer. Where none belongs it is null. -/
def Accepts : Opcode → Datum → Prop
  | .const, operand => ∃ value, operand = .int value ∧ -0x80000000 ≤ value ∧ value ≤ 0x7fffffff
  | .store, operand | .load, operand => ∃ name, operand = .text name ∧ name.length = 1
  | .jump, operand | .jumpIf, operand =>
    ∃ target, operand = .int target ∧ 0 ≤ target ∧ target ≤ 0xffffffff
  | .binary _, operand | .ret, operand => operand = .null

variable {opcode : Opcode} {operand : Datum}

theorem constantOperand_eq_ok_iff {value : Int32} :
    opcode.constantOperand operand = .ok value ↔ operand = .int value.toInt := by
  constructor
  · intro h
    cases operand with
    | int i =>
      rw [constantOperand] at h
      split at h
      · next hi =>
        cases h
        rw [Word32.toInt_ofInt_of_inRange hi]
      · cases h
    | _ => cases h
  · rintro rfl
    exact constantOperand_toInt opcode value

theorem targetOperand_eq_ok_iff {target : UInt32} :
    opcode.targetOperand operand = .ok target ↔ operand = .int target.toNat := by
  constructor
  · intro h
    cases operand with
    | int i =>
      rw [targetOperand] at h
      split at h
      · next hi =>
        cases h
        rw [Word32.toNat_ofNat_of_isIndex hi]
      · cases h
    | _ => cases h
  · rintro rfl
    exact targetOperand_toNat opcode target

theorem nameOperand_eq_ok_iff {name : Char} :
    opcode.nameOperand operand = .ok name ↔ operand = .text (String.singleton name) := by
  constructor
  · intro h
    cases operand with
    | text s =>
      rw [nameOperand] at h
      split at h
      · next _ hs =>
        cases h
        rw [String.toList_inj.1 (hs.trans (String.toList_singleton name).symm)]
      · cases h
    | _ => cases h
  · rintro rfl
    exact nameOperand_singleton opcode name

theorem withoutOperand_eq_ok_iff {instr built : Instr} :
    withoutOperand instr operand = .ok built ↔ operand = .null ∧ built = instr := by
  cases operand <;> simp [withoutOperand, eq_comm]

/-- An opcode and an operand make the one instruction that has them, if there is one. -/
theorem instr_eq_ok_iff {instr : Instr} :
    opcode.instr operand = .ok instr ↔ instr.opcode = opcode ∧ instr.operand = operand := by
  constructor
  · intro h
    cases opcode with
    | const =>
      obtain ⟨value, hvalue, rfl⟩ := exists_of_map_eq_ok h
      exact ⟨rfl, (constantOperand_eq_ok_iff.1 hvalue).symm⟩
    | store | load =>
      obtain ⟨name, hname, rfl⟩ := exists_of_map_eq_ok h
      exact ⟨rfl, (nameOperand_eq_ok_iff.1 hname).symm⟩
    | jump | jumpIf =>
      obtain ⟨target, htarget, rfl⟩ := exists_of_map_eq_ok h
      exact ⟨rfl, (targetOperand_eq_ok_iff.1 htarget).symm⟩
    | binary op | ret =>
      obtain ⟨rfl, rfl⟩ := withoutOperand_eq_ok_iff.1 h
      exact ⟨rfl, rfl⟩
  · rintro ⟨rfl, rfl⟩
    exact instr_operand instr

/-- The operands that belong to an opcode are those of its instructions. -/
theorem accepts_iff :
    opcode.Accepts operand ↔ ∃ instr : Instr, instr.opcode = opcode ∧ instr.operand = operand := by
  constructor
  · intro h
    cases opcode with
    | const =>
      obtain ⟨value, rfl, hrange⟩ := h
      exact ⟨.const _, rfl, congrArg Datum.int (Word32.toInt_ofInt_of_inRange hrange)⟩
    | store =>
      obtain ⟨name, rfl, hlength⟩ := h
      obtain ⟨c, rfl⟩ := Text.exists_singleton_of_length hlength
      exact ⟨.store c, rfl, rfl⟩
    | load =>
      obtain ⟨name, rfl, hlength⟩ := h
      obtain ⟨c, rfl⟩ := Text.exists_singleton_of_length hlength
      exact ⟨.load c, rfl, rfl⟩
    | jump =>
      obtain ⟨value, rfl, hindex⟩ := h
      exact ⟨.jump _, rfl, congrArg Datum.int (Word32.toNat_ofNat_of_isIndex hindex)⟩
    | jumpIf =>
      obtain ⟨value, rfl, hindex⟩ := h
      exact ⟨.jumpIf _, rfl, congrArg Datum.int (Word32.toNat_ofNat_of_isIndex hindex)⟩
    | binary op => exact ⟨.binary op, rfl, h.symm⟩
    | ret => exact ⟨.ret, rfl, h.symm⟩
  · rintro ⟨instr, rfl, rfl⟩
    cases instr with
    | const value => exact ⟨_, rfl, Word32.inRange_toInt value⟩
    | store name | load name => exact ⟨_, rfl, String.length_singleton⟩
    | jump target | jumpIf target => exact ⟨_, rfl, Word32.isIndex_toNat target⟩
    | binary op | ret => rfl

/-! ## Refused operands -/

variable {error : BuildError}

theorem kind_of_constantOperand (h : opcode.constantOperand operand = .error error) :
    error.kind = .wrongValue ↔ ∃ value, operand = .int value := by
  cases operand with
  | int i =>
    rw [constantOperand] at h
    split at h
    · cases h
    · cases h
      exact iff_of_true rfl ⟨i, rfl⟩
  | _ =>
    cases h
    simp [BuildError.kind]

theorem kind_of_targetOperand (h : opcode.targetOperand operand = .error error) :
    error.kind = .wrongValue ↔ ∃ value, operand = .int value := by
  cases operand with
  | int i =>
    rw [targetOperand] at h
    split at h
    · cases h
    · cases h
      exact iff_of_true rfl ⟨i, rfl⟩
  | _ =>
    cases h
    simp [BuildError.kind]

theorem kind_of_nameOperand (h : opcode.nameOperand operand = .error error) :
    error.kind = .wrongType := by
  cases operand with
  | text s =>
    rw [nameOperand] at h
    split at h
    · cases h
    · cases h
      rfl
  | _ =>
    cases h
    rfl

theorem kind_of_withoutOperand {instr : Instr} (h : withoutOperand instr operand = .error error) :
    error.kind = .wrongType := by
  cases operand with
  | null => cases h
  | _ =>
    cases h
    rfl

/-- The type of an operand comes before its range: a refused operand is of the wrong type, unless it is
    an integer and the opcode takes integers. -/
theorem kind_of_instr (h : opcode.instr operand = .error error) :
    error.kind = .wrongValue ↔
      (∃ value, operand = .int value) ∧ ∃ value, opcode.Accepts (.int value) := by
  cases opcode with
  | const =>
    have htakes : ∃ value, Opcode.const.Accepts (.int value) := ⟨0, 0, rfl, by decide, by decide⟩
    rw [kind_of_constantOperand (eq_error_of_map_eq_error h), and_iff_left htakes]
  | jump | jumpIf =>
    rw [kind_of_targetOperand (eq_error_of_map_eq_error h), and_iff_left]
    exact ⟨0, 0, rfl, by decide, by decide⟩
  | store | load =>
    rw [kind_of_nameOperand (eq_error_of_map_eq_error h)]
    simp [Accepts]
  | binary op | ret =>
    rw [kind_of_withoutOperand h]
    simp [Accepts]

end Opcode

/-! ## Single descriptions -/

namespace RawInstr

/-- The ways in which a description denotes an opcode. -/
inductive Denotes (raw : RawInstr) (opcode : Opcode) : Prop
  /-- By its word, with an operand if one belongs to the opcode and without if not. -/
  | word (hword : raw.op = .text opcode.keyword)
      (hoperand : raw.operand.isSome = opcode.takesOperand)
  /-- By a value that stands for its number. -/
  | number (hnumber : raw.op.integer? = some (opcode.code : Int))

variable {raw : RawInstr} {opcode : Opcode} {instr : Instr}

/-- A value that stands for a number is no word. -/
theorem opcode?_of_integer? {i : Int} (h : raw.op.integer? = some i) :
    raw.opcode? = Opcode.ofCode? i := by
  rw [opcode?]
  split
  · next word hop =>
    rw [hop] at h
    cases h
  · rw [h, Option.bind_some]

theorem opcode?_eq_some_iff : raw.opcode? = some opcode ↔ raw.Denotes opcode := by
  constructor
  · intro h
    rw [opcode?] at h
    split at h
    · next word hop =>
      obtain ⟨rfl, hoperand⟩ := Opcode.ofKeyword?_eq_some_iff.1 h
      exact .word hop hoperand
    · next op hop =>
      obtain ⟨i, hi, hcode⟩ := Option.bind_eq_some_iff.1 h
      rw [Opcode.ofCode?_eq_some_iff] at hcode
      exact .number (hcode ▸ hi)
  · rintro (⟨hword, hoperand⟩ | hnumber)
    · rw [opcode?, hword]
      exact Opcode.ofKeyword?_eq_some_iff.2 ⟨rfl, hoperand⟩
    · rw [opcode?_of_integer? hnumber, Opcode.ofCode?_code]

/-- A description builds the instruction that has the opcode it denotes and the operand it gives. -/
theorem build_eq_ok_iff :
    raw.build = .ok instr ↔ raw.Denotes instr.opcode ∧ raw.operand.getD .null = instr.operand := by
  rw [← opcode?_eq_some_iff, build]
  cases hopcode : raw.opcode? with
  | none => simp
  | some opcode =>
    simp only [Opcode.instr_eq_ok_iff, Option.some.injEq]
    exact and_congr eq_comm eq_comm

/-- A description builds something exactly if it denotes an opcode and gives an operand that belongs to
    it. -/
theorem exists_build_iff :
    (∃ instr, raw.build = .ok instr) ↔
      ∃ opcode, raw.Denotes opcode ∧ opcode.Accepts (raw.operand.getD .null) := by
  constructor
  · rintro ⟨instr, h⟩
    obtain ⟨hdenotes, hoperand⟩ := build_eq_ok_iff.1 h
    exact ⟨instr.opcode, hdenotes, Opcode.accepts_iff.2 ⟨instr, rfl, hoperand.symm⟩⟩
  · rintro ⟨opcode, hdenotes, haccepts⟩
    obtain ⟨instr, rfl, hoperand⟩ := Opcode.accepts_iff.1 haccepts
    exact ⟨instr, build_eq_ok_iff.2 ⟨hdenotes, hoperand.symm⟩⟩

/-- A refusal finds fault with a value, and not with a type, exactly if the description denotes no opcode,
    or denotes one that takes integers and gives it an integer, which is then out of range. -/
theorem kind_of_build {error : BuildError} (h : raw.build = .error error) :
    error.kind = .wrongValue ↔
      ∀ opcode, raw.Denotes opcode →
        (∃ value, raw.operand.getD .null = .int value) ∧ ∃ value, opcode.Accepts (.int value) := by
  simp only [← opcode?_eq_some_iff]
  rw [build] at h
  split at h
  · next opcode hopcode =>
    rw [Opcode.kind_of_instr h, hopcode]
    simp only [Option.some.injEq, forall_eq']
  · next hunknown =>
    cases h
    simp [hunknown, BuildError.kind]

/-- The description of an opcode by its number. -/
def byNumber (opcode : Opcode) (operand : Option Datum) : RawInstr := ⟨.int opcode.code, operand⟩

/-- The description of an opcode by its word. -/
def byWord (opcode : Opcode) (operand : Option Datum) : RawInstr := ⟨.text opcode.keyword, operand⟩

theorem opcode?_byNumber (opcode : Opcode) (operand : Option Datum) :
    (byNumber opcode operand).opcode? = some opcode :=
  opcode?_eq_some_iff.2 (.number rfl)

/-- A word denotes what the number denotes, whatever the operand is: the same instruction is built, or
    none for the same reason. -/
theorem build_byWord {operand : Option Datum} (h : operand.isSome = opcode.takesOperand) :
    (byWord opcode operand).build = (byNumber opcode operand).build := by
  have hword : (byWord opcode operand).opcode? = some opcode := opcode?_eq_some_iff.2 (.word rfl h)
  rw [build, build, hword, opcode?_byNumber]
  rfl

end RawInstr

/-! ## Lists of descriptions -/

namespace Program

variable {start : Nat} {raws : List RawInstr} {program : Program} {error : ProgramError}

theorem buildFrom_cons_of_ok {raw : RawInstr} {instr : Instr} (h : raw.build = .ok instr) :
    buildFrom start (raw :: raws) = (instr :: ·) <$> buildFrom (start + 1) raws := by
  rw [buildFrom, h]

theorem buildFrom_cons_of_error {raw : RawInstr} {reason : BuildError}
    (h : raw.build = .error reason) : buildFrom start (raw :: raws) = .error ⟨start, reason⟩ := by
  rw [buildFrom, h]

/-- A program is built from what its descriptions build. -/
theorem buildFrom_eq_ok_iff :
    buildFrom start raws = .ok program ↔ raws.map RawInstr.build = program.map .ok := by
  induction raws generalizing start program with
  | nil => simp [buildFrom, eq_comm]
  | cons raw raws ih =>
    cases hraw : raw.build with
    | error reason =>
      rw [buildFrom_cons_of_error hraw]
      cases program <;> simp [hraw]
    | ok instr =>
      rw [buildFrom_cons_of_ok hraw]
      constructor
      · intro h
        obtain ⟨rest, hrest, rfl⟩ := exists_of_map_eq_ok h
        rw [List.map_cons, List.map_cons, hraw, ih.1 hrest]
      · intro h
        cases program with
        | nil => cases h
        | cons first rest =>
          rw [List.map_cons, List.map_cons, hraw, List.cons.injEq, Except.ok.injEq] at h
          obtain ⟨rfl, hrest⟩ := h
          rw [ih.2 hrest]
          rfl

/-- The error of a list of descriptions is that of the first one which builds nothing. -/
theorem buildFrom_eq_error_iff :
    buildFrom start raws = .error error ↔
      ∃ k raw, error.index = start + k ∧ raws[k]? = some raw ∧ raw.build = .error error.error ∧
        ∀ other ∈ raws.take k, ∃ instr, other.build = .ok instr := by
  induction raws generalizing start with
  | nil => simp [buildFrom]
  | cons raw raws ih =>
    cases hraw : raw.build with
    | error reason =>
      rw [buildFrom_cons_of_error hraw]
      constructor
      · intro h
        cases h
        exact ⟨0, raw, rfl, rfl, hraw, by simp⟩
      · rintro ⟨k, other, hindex, hother, herror, hbefore⟩
        cases k with
        | zero =>
          cases hother
          obtain ⟨index, found⟩ := error
          obtain rfl : found = reason := Except.error.inj (herror.symm.trans hraw)
          obtain rfl : index = start := hindex
          rfl
        | succ k =>
          -- then the first description would be one of those that build something
          obtain ⟨instr, hinstr⟩ := hbefore raw (by simp)
          rw [hraw] at hinstr
          cases hinstr
    | ok instr =>
      have hrest : buildFrom start (raw :: raws) = .error error ↔
          buildFrom (start + 1) raws = .error error := by
        rw [buildFrom_cons_of_ok hraw]
        cases buildFrom (start + 1) raws <;> simp [Functor.map, Except.map]
      rw [hrest, ih]
      constructor
      · rintro ⟨k, other, hindex, hother, herror, hbefore⟩
        refine ⟨k + 1, other, by omega, hother, herror, ?_⟩
        rw [List.take_succ_cons, List.forall_mem_cons]
        exact ⟨⟨instr, hraw⟩, hbefore⟩
      · rintro ⟨k, other, hindex, hother, herror, hbefore⟩
        cases k with
        | zero =>
          cases hother
          rw [hraw] at herror
          cases herror
        | succ k =>
          rw [List.take_succ_cons, List.forall_mem_cons] at hbefore
          exact ⟨k, other, by omega, hother, herror, hbefore.2⟩

theorem build_eq_error_iff :
    build raws = .error error ↔
      ∃ raw, raws[error.index]? = some raw ∧ raw.build = .error error.error ∧
        ∀ other ∈ raws.take error.index, ∃ instr, other.build = .ok instr := by
  rw [build, buildFrom_eq_error_iff]
  constructor
  · rintro ⟨k, raw, hindex, h⟩
    obtain rfl : error.index = k := by omega
    exact ⟨raw, h⟩
  · rintro ⟨raw, h⟩
    exact ⟨error.index, raw, by omega, h⟩

theorem exists_build_iff :
    (∃ program, build raws = .ok program) ↔ ∀ raw ∈ raws, ∃ instr, raw.build = .ok instr := by
  constructor
  · rintro ⟨program, h⟩ raw hraw
    have hbuilt : raw.build ∈ program.map Except.ok := by
      rw [← buildFrom_eq_ok_iff.1 h]
      exact List.mem_map_of_mem hraw
    obtain ⟨instr, -, hinstr⟩ := List.mem_map.1 hbuilt
    exact ⟨instr, hinstr.symm⟩
  · intro h
    cases hbuild : build raws with
    | ok program => exact ⟨program, rfl⟩
    | error error =>
      obtain ⟨raw, hraw, herror, -⟩ := build_eq_error_iff.1 hbuild
      obtain ⟨instr, hinstr⟩ := h raw (List.mem_of_getElem? hraw)
      rw [hinstr] at herror
      cases herror

end Program

/-- A list of descriptions that is refused leaves the machine as it was. -/
theorem Machine.act_of_refused {raws : List RawInstr} {error : ProgramError}
    (h : Program.build raws = .error error) (machine : Machine) (budget : Nat) :
    machine.act budget (.run raws) = some { reply := .refused error, machine } ∧
      machine.act budget (.fetch raws) = some { reply := .refused error, machine } := by
  constructor
  · rw [act, h]
  · rw [act, h]

/-- **Exactly the well-formed instructions can be described, each in one canonical way.** A description
    builds something exactly if it denotes an opcode and gives an operand that belongs to it. What is
    built has that opcode and that operand, and is built again from the number of the one and the
    other. Every operand that belongs to an opcode is built with the number of the opcode, and
    instructions are equal exactly if their numbers and their operands are. The word of an opcode does
    what the number does, be it an instruction or a refusal. A refusal finds fault with a value if the
    opcode is unknown, or an integer out of range where one belongs, and else with the type of the
    operand. A list builds a program of what its
    descriptions build, which they all have to do; otherwise its error is that of the first that does
    not, with the place of it, and a machine that is given the list stays as it is. -/
theorem RawInstr.build_canonical :
    (∀ raw : RawInstr, (∃ instr, raw.build = .ok instr) ↔
      ∃ opcode, raw.Denotes opcode ∧ opcode.Accepts (raw.operand.getD .null)) ∧
    (∀ (raw : RawInstr) (instr : Instr), raw.build = .ok instr →
      raw.Denotes instr.opcode ∧ raw.operand.getD .null = instr.operand ∧
      instr.opcode.Accepts instr.operand ∧
      (byNumber instr.opcode (some instr.operand)).build = .ok instr) ∧
    (∀ (opcode : Opcode) (operand : Datum), opcode.Accepts operand →
      ∃ instr, (byNumber opcode (some operand)).build = .ok instr ∧
        instr.opcode = opcode ∧ instr.operand = operand) ∧
    (∀ a b : Instr, a = b ↔ a.opcode.code = b.opcode.code ∧ a.operand = b.operand) ∧
    (∀ (opcode : Opcode) (operand : Option Datum), operand.isSome = opcode.takesOperand →
      (byWord opcode operand).build = (byNumber opcode operand).build) ∧
    (∀ (raw : RawInstr) (error : BuildError), raw.build = .error error →
      (error.kind = .wrongValue ↔ ∀ opcode, raw.Denotes opcode →
        (∃ value, raw.operand.getD .null = .int value) ∧ ∃ value, opcode.Accepts (.int value))) ∧
    (∀ (raws : List RawInstr) (program : Program), Program.build raws = .ok program ↔
      raws.map RawInstr.build = program.map .ok) ∧
    (∀ raws : List RawInstr, (∃ program, Program.build raws = .ok program) ↔
      ∀ raw ∈ raws, ∃ instr, raw.build = .ok instr) ∧
    (∀ (raws : List RawInstr) (error : ProgramError), Program.build raws = .error error ↔
      ∃ raw, raws[error.index]? = some raw ∧ raw.build = .error error.error ∧
        ∀ other ∈ raws.take error.index, ∃ instr, other.build = .ok instr) ∧
    ∀ (raws : List RawInstr) (error : ProgramError), Program.build raws = .error error →
      ∀ (machine : Machine) (budget : Nat),
        machine.act budget (.run raws) = some { reply := .refused error, machine } ∧
        machine.act budget (.fetch raws) = some { reply := .refused error, machine } := by
  refine ⟨fun _ => exists_build_iff, ?_, ?_, ?_, fun _ _ => build_byWord, fun _ _ => kind_of_build,
    fun _ _ => Program.buildFrom_eq_ok_iff, fun _ => Program.exists_build_iff,
    fun _ _ => Program.build_eq_error_iff, fun _ _ => Machine.act_of_refused⟩
  · intro raw instr h
    obtain ⟨hdenotes, hoperand⟩ := build_eq_ok_iff.1 h
    exact ⟨hdenotes, hoperand, Opcode.accepts_iff.2 ⟨instr, rfl, rfl⟩, build_ofInstr instr⟩
  · intro opcode operand haccepts
    obtain ⟨instr, rfl, rfl⟩ := Opcode.accepts_iff.1 haccepts
    exact ⟨instr, build_ofInstr instr, rfl, rfl⟩
  · intro a b
    constructor
    · rintro rfl
      exact ⟨rfl, rfl⟩
    · rintro ⟨hcode, hoperand⟩
      exact Instr.eq_of_opcode_of_operand (Opcode.code_injective hcode) hoperand

/-- The opcode of a store as a truth value, the greatest jump target, a constant that is not whole, one
    that is too large by one, and a list whose second and third descriptions are bad. -/
theorem RawInstr.build_canonical_of_oddDescriptions :
    build ⟨.bool true, some (.text "\u00e9")⟩ = .ok (.store '\u00e9') ∧
    (byNumber .store (some (.text "\u00e9"))).build = .ok (.store '\u00e9') ∧
    Opcode.jumpIf.Accepts (.int 0xffffffff) ∧
    (∃ instr, (byNumber .jumpIf (some (.int 0xffffffff))).build = .ok instr ∧
      instr.opcode = .jumpIf ∧ instr.operand = .int 0xffffffff) ∧
    (byWord .const (some (.float (.finite false 3 (-1))))).build =
      (byNumber .const (some (.float (.finite false 3 (-1))))).build ∧
    (byNumber .const (some (.int 0x80000000))).build = .error (.constantRange 0x80000000) ∧
    (∀ opcode, (byNumber .const (some (.int 0x80000000))).Denotes opcode →
      (∃ value, Datum.int 0x80000000 = .int value) ∧ ∃ value, opcode.Accepts (.int value)) ∧
    Program.build [byWord .ret none, byNumber .load (some (.text "ab")), byWord .ret (some .null)] =
      .error ⟨1, .needsName .load (.text "ab")⟩ ∧
    ∀ machine : Machine, machine.act 0 (.run
        [byWord .ret none, byNumber .load (some (.text "ab")), byWord .ret (some .null)]) =
      some { reply := .refused ⟨1, .needsName .load (.text "ab")⟩, machine } := by
  obtain ⟨-, hbuilt, haccepted, -, hword, hkind, -, -, herror, hrefused⟩ := build_canonical
  have hstore : build ⟨.bool true, some (.text "\u00e9")⟩ = .ok (.store '\u00e9') := rfl
  have htarget : Opcode.jumpIf.Accepts (.int 0xffffffff) := ⟨_, rfl, by decide⟩
  have hrange : (byNumber .const (some (.int 0x80000000))).build =
      .error (.constantRange 0x80000000) := rfl
  have hfirst : ∀ other ∈ [byWord .ret none], ∃ instr, other.build = .ok instr :=
    List.forall_mem_singleton.2 ⟨.ret, rfl⟩
  have hlist : Program.build
      [byWord .ret none, byNumber .load (some (.text "ab")), byWord .ret (some .null)] =
        .error ⟨1, .needsName .load (.text "ab")⟩ :=
    (herror _ _).2 ⟨_, rfl, rfl, hfirst⟩
  exact ⟨hstore, (hbuilt _ _ hstore).2.2.2, htarget, haccepted _ _ htarget, hword _ _ rfl, hrange,
    (hkind _ _ hrange).1 rfl, hlist, fun machine => (hrefused _ _ hlist machine 0).1⟩

end StackVM
