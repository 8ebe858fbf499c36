import StackVM.Proofs.Variables

set_option autoImplicit false

/-! # Where a run ends

`Instr.Failure` lists the ways an instruction fails, `Program.Last` the ways a step ends a run. A
run passes through places of the program only and never has more cells than its limit allows, so
its ending tells the instruction at the pointer and what is left on the stack. -/

namespace StackVM

/-! ## How an instruction fails -/

namespace Instr

/-- The failures of an instruction on a stack: with which fault, and what they leave. -/
inductive Failure (limit : Option Int) : Instr → Stack → Fault → Stack → Prop
  /-- There are too few cells, and those there were are gone. -/
  | underflow {instr : Instr} {s : Stack} (hfew : s.length < instr.arity) :
      Failure limit instr s { kind := .stackUnderflow } []
  /-- The divisor is zero, and both operands are gone. -/
  | division {a b : Cell} {s : Stack} (hzero : b.value = 0) :
      Failure limit (.binary .div) (a :: b :: s) { kind := .divisionByZero } s
  /-- The variable is not on the stack. -/
  | unknown {x : Char} {s : Stack} (habsent : s.lookup (String.singleton x) = none) :
      Failure limit (.load x) s
        { kind := .unknownVariable, name := some (String.singleton x) } s
  /-- The value has no place once the operands are gone. -/
  | overflow {instr : Instr} {s : Stack} (hpush : instr.pushes = true)
      (hops : instr.arity ≤ s.length) (hfull : Stack.isFull limit (s.drop instr.arity) = true) :
      Failure limit instr s { kind := .stackOverflow } (s.drop instr.arity)

end Instr

namespace Instr.Failure

variable {limit : Option Int} {instr : Instr} {s t : Stack} {name : Option String} {fault : Fault}

/-- A fault has a name exactly when a variable is missing. -/
theorem name_iff (h : instr.Failure limit s fault t) :
    fault.name ≠ none ↔ fault.kind = .unknownVariable := by
  cases h <;> simp

theorem kind_ne_invalidPointer (h : instr.Failure limit s fault t) :
    fault.kind ≠ .invalidPointer := by
  cases h <;> simp

theorem of_underflow (h : instr.Failure limit s ⟨.stackUnderflow, name⟩ t) :
    t = [] ∧ ((∃ x, instr = .store x) ∨ (∃ target, instr = .jumpIf target) ∨
      (∃ op, instr = .binary op) ∨ instr = .ret) := by
  cases h with
  | underflow hfew =>
    refine ⟨rfl, ?_⟩
    cases instr with
    | const | load | jump => simp [arity] at hfew
    | store | binary | jumpIf | ret => simp

theorem of_division (h : instr.Failure limit s ⟨.divisionByZero, name⟩ t) :
    instr = .binary .div := by
  cases h
  rfl

theorem of_unknown (h : instr.Failure limit s ⟨.unknownVariable, name⟩ t) :
    ∃ x, name = some (String.singleton x) ∧ instr = .load x ∧
      ∀ cell ∈ t, cell.name ≠ some (String.singleton x) := by
  cases h with
  | unknown habsent =>
    have hnone := Stack.holds_eq_false_iff.1 (Stack.lookup_eq_none_iff.1 habsent)
    exact ⟨_, rfl, rfl, hnone⟩

/-- An instruction that takes cells from a stack within its limit leaves a place for its result, so
    only one that takes none can overflow, and it leaves the full stack as it was. -/
theorem of_overflow (h : instr.Failure limit s ⟨.stackOverflow, name⟩ t)
    (hwithin : s.Within limit) :
    ∃ m, limit = some m ∧ (s.length : Int) = max m 0 ∧ t = s ∧
      ((∃ value, instr = .const value) ∨ ∃ x, instr = .load x) := by
  cases h with
  | overflow hpush hops hfull =>
    obtain ⟨m, rfl⟩ : ∃ m, limit = some m := by
      cases limit with
      | none => simp [Stack.isFull] at hfull
      | some m => exact ⟨m, rfl⟩
    rw [Stack.isFull_some, decide_eq_true_eq, List.length_drop] at hfull
    have hle := hwithin m rfl
    -- as many cells after the operands are gone as the limit allows before: none were taken
    have harity : instr.arity = 0 := by omega
    refine ⟨m, rfl, by omega, by rw [harity, List.drop_zero], ?_⟩
    cases instr with
    | const value => exact Or.inl ⟨value, rfl⟩
    | load x => exact Or.inr ⟨x, rfl⟩
    | jump => simp [pushes] at hpush
    | store | binary | jumpIf | ret => simp [arity] at harity

end Instr.Failure

/-- What an instruction makes of the run: it goes on to the following place, jumps, returns or
    fails. -/
inductive Instr.Course (limit : Option Int) (instr : Instr) (s : Stack) : Effect → Prop
  | next {t : Stack} : Course limit instr s ⟨.next, t⟩
  | goto {target : Nat} {t : Stack} (htarget : instr.target? = some target) :
      Course limit instr s ⟨.goto target, t⟩
  | halt {value : Int} {t : Stack} (hret : instr = .ret) : Course limit instr s ⟨.halt value, t⟩
  | fail {fault : Fault} {t : Stack} (hfail : instr.Failure limit s fault t) :
      Course limit instr s ⟨.fail fault, t⟩

namespace Instr

variable {limit : Option Int} {instr : Instr} {s : Stack}

/-- A push at the end of an instruction fails only for want of a place. -/
theorem course_of_push {name : Option String} {value : Int} (hpush : instr.pushes = true)
    (hops : instr.arity ≤ s.length) :
    Course limit instr s (Effect.push limit name value (s.drop instr.arity)) := by
  unfold Effect.push
  cases hp : Stack.push limit name value (s.drop instr.arity) with
  | ok t => exact .next
  | error fault =>
    obtain ⟨-, hfull, rfl⟩ := Stack.push_eq_error_iff.1 hp
    exact .fail (.overflow hpush hops hfull)

/-- Every instruction takes one of the listed courses. -/
theorem course_of_effect (limit : Option Int) (instr : Instr) (s : Stack) :
    Course limit instr s (instr.effect limit s) := by
  cases instr with
  | const value => exact course_of_push rfl (Nat.zero_le _)
  | store x =>
    cases s with
    | nil => exact .fail (.underflow Nat.zero_lt_one)
    | cons cell s => exact course_of_push (s := cell :: s) rfl (Nat.le_add_left 1 _)
  | load x =>
    cases hx : s.lookup (String.singleton x) with
    | some value =>
      simp only [effect, hx]
      exact course_of_push rfl (Nat.zero_le _)
    | none =>
      simp only [effect, hx]
      exact .fail (.unknown hx)
  | binary op =>
    rcases s with _ | ⟨a, _ | ⟨b, s⟩⟩
    · exact .fail (.underflow (by simp [arity]))
    · exact .fail (.underflow (by simp [arity]))
    · cases hop : op.apply a.value b.value with
      | ok value =>
        simp only [effect, hop]
        exact course_of_push (s := a :: b :: s) rfl (by simp [arity])
      | error reason =>
        simp only [effect, hop]
        obtain ⟨rfl, hzero, rfl⟩ := BinaryOp.apply_eq_error_iff.1 hop
        exact .fail (.division hzero)
  | jump target => exact .goto rfl
  | jumpIf target =>
    cases s with
    | nil => exact .fail (.underflow Nat.zero_lt_one)
    | cons cell s =>
      simp only [effect]
      split
      · exact .goto rfl
      · exact .next
  | ret =>
    cases s with
    | nil => exact .fail (.underflow Nat.zero_lt_one)
    | cons cell s => exact .halt rfl

end Instr

/-! ## How a step ends a run -/

namespace Program

/-- The steps that end a run of a program at a configuration: with which ending, and where. -/
inductive Last (program : Program) (limit : Option Int) (config : Config) : Ending → Config → Prop
  /-- There is no instruction at the pointer. -/
  | outside (hout : program.length ≤ config.pc) :
      Last program limit config (.fault { kind := .invalidPointer }) config
  /-- The instruction sends the pointer out of the program, to the following place or by a jump. -/
  | leave {instr : Instr} {target : Nat} {s : Stack} (hfetch : program[config.pc]? = some instr)
      (htarget : target = config.pc + 1 ∨ instr.target? = some target)
      (hout : program.length ≤ target) :
      Last program limit config (.fault { kind := .invalidPointer }) ⟨target, s⟩
  /-- The instruction returns. -/
  | ret {value : Int} {s : Stack} (hfetch : program[config.pc]? = some .ret) :
      Last program limit config (.result value) ⟨config.pc, s⟩
  /-- The instruction fails. -/
  | fail {instr : Instr} {fault : Fault} {s : Stack} (hfetch : program[config.pc]? = some instr)
      (hfail : instr.Failure limit config.stack fault s) :
      Last program limit config (.fault fault) ⟨config.pc, s⟩

variable {program : Program} {limit : Option Int} {config final : Config} {ending : Ending}

/-- A step that ends the run is one of the listed ones. -/
theorem last_of_step (h : program.step limit config = .ended ending final) :
    program.Last limit config ending final := by
  cases hfetch : program[config.pc]? with
  | none =>
    rw [step_of_not_fetch hfetch, Step.ended.injEq] at h
    obtain ⟨rfl, rfl⟩ := h
    exact .outside (List.getElem?_eq_none_iff.1 hfetch)
  | some instr =>
    rw [step_of_fetch hfetch] at h
    -- the effect is forgotten but for its course, so that the cases are those of the pointer
    have hcourse := instr.course_of_effect limit config.stack
    generalize instr.effect limit config.stack = effect at h hcourse
    cases hcourse with
    | next =>
      obtain ⟨hout, rfl, rfl⟩ := Route.step_enter_eq_ended_iff.1 h
      exact .leave hfetch (Or.inl rfl) hout
    | goto htarget =>
      obtain ⟨hout, rfl, rfl⟩ := Route.step_enter_eq_ended_iff.1 h
      exact .leave hfetch (Or.inr htarget) hout
    | halt hret =>
      cases h
      exact .ret (hret ▸ hfetch)
    | fail hfail =>
      cases h
      exact .fail hfetch hfail

/-- A step that goes on stays inside the program. -/
theorem pc_lt_of_step {next : Config} (h : program.step limit config = .running next) :
    next.pc < program.length := by
  cases hfetch : program[config.pc]? with
  | none =>
    rw [step_of_not_fetch hfetch] at h
    cases h
  | some instr =>
    rw [step_of_fetch hfetch] at h
    cases hcontrol : (instr.effect limit config.stack).control with
    | next | goto target =>
      rw [hcontrol] at h
      obtain ⟨hin, rfl⟩ := Route.step_enter_eq_running_iff.1 h
      exact hin
    | halt value | fail fault =>
      rw [hcontrol] at h
      cases h

/-- A run fetches inside the program, but for the first fetch of an empty program. -/
theorem pc_of_visited {budget : Nat} :
    ∀ config ∈ program.visited limit budget ⟨0, []⟩,
      config.pc < program.length ∨ config.pc = 0 :=
  visited_invariant (fun _ _ _ hstep => Or.inl (pc_lt_of_step hstep)) (Or.inr rfl)

namespace Last

theorem invalid_iff (h : program.Last limit config ending final) :
    ending = .fault { kind := .invalidPointer } ↔ program.length ≤ final.pc := by
  cases h with
  | outside hout => exact iff_of_true rfl hout
  | leave hfetch htarget hout => exact iff_of_true rfl hout
  | ret hfetch =>
    have hin := (List.getElem?_eq_some_iff.1 hfetch).1
    exact iff_of_false (by simp) (by simpa using hin)
  | fail hfetch hfail =>
    have hin := (List.getElem?_eq_some_iff.1 hfetch).1
    refine iff_of_false ?_ (by simpa using hin)
    intro heq
    cases heq
    exact hfail.kind_ne_invalidPointer rfl

theorem pc_eq (h : program.Last limit config ending final)
    (hending : ending ≠ .fault { kind := .invalidPointer }) : final.pc = config.pc := by
  cases h with
  | outside | leave => exact absurd rfl hending
  | ret | fail => rfl

/-- A fault that is no invalid pointer is a failure of the instruction at the pointer. -/
theorem failure {fault : Fault} (h : program.Last limit config (.fault fault) final)
    (hkind : fault.kind ≠ .invalidPointer) :
    ∃ instr, program[final.pc]? = some instr ∧
      instr.Failure limit config.stack fault final.stack := by
  cases h with
  | outside | leave => exact absurd rfl hkind
  | fail hfetch hfail => exact ⟨_, hfetch, hfail⟩

theorem name_iff {fault : Fault} (h : program.Last limit config (.fault fault) final) :
    fault.name ≠ none ↔ fault.kind = .unknownVariable := by
  cases h with
  | outside | leave => simp
  | fail hfetch hfail => exact hfail.name_iff

theorem eq_ret {value : Int} (h : program.Last limit config (.result value) final) :
    program[final.pc]? = some .ret := by
  cases h with
  | ret hfetch => exact hfetch

/-- A pointer that has left the program did so by one place or by a jump. -/
theorem left_by (h : program.Last limit config ending final)
    (hconfig : config.pc < program.length ∨ config.pc = 0) (hout : program.length ≤ final.pc) :
    final.pc = program.length ∨ ∃ instr ∈ program, instr.target? = some final.pc := by
  cases h with
  | outside => exact Or.inl (by omega)
  | leave hfetch htarget =>
    rcases htarget with rfl | hjump
    · have hin := (List.getElem?_eq_some_iff.1 hfetch).1
      have hout : program.length ≤ config.pc + 1 := hout
      exact Or.inl (by simp only; omega)
    · exact Or.inr ⟨_, List.mem_of_getElem? hfetch, hjump⟩
  | ret hfetch | fail hfetch =>
    have hin := (List.getElem?_eq_some_iff.1 hfetch).1
    exact absurd hout (Nat.not_le.2 hin)

end Last

/-- Where a run has ended, with which ending and stack: `fetched` has the configurations of the
    run. -/
structure EndedAt (program : Program) (limit : Option Int) (fetched : List Config)
    (ending : Ending) (ip : Int) (stack : Stack) : Prop where
  nonneg : 0 ≤ ip
  /-- An invalid pointer is one that has left the program. -/
  invalid_iff : ending = .fault { kind := .invalidPointer } ↔ (program.length : Int) ≤ ip
  /-- The pointer leaves the program at its end or by a jump of it. -/
  invalid_place : (program.length : Int) ≤ ip → ip = program.length ∨
    ∃ instr ∈ program, ∃ target : Nat, instr.target? = some target ∧ ip = target
  /-- Any other ending is the work of the instruction at the pointer. -/
  responsible : ending ≠ .fault { kind := .invalidPointer } →
    ∃ s, ⟨ip.toNat, s⟩ ∈ fetched ∧
      program.step limit ⟨ip.toNat, s⟩ = .ended ending ⟨ip.toNat, stack⟩
  result : ∀ value, ending = .result value → program[ip.toNat]? = some .ret
  underflow : ∀ name, ending = .fault ⟨.stackUnderflow, name⟩ → stack = [] ∧
    ((∃ x, program[ip.toNat]? = some (.store x)) ∨
      (∃ target, program[ip.toNat]? = some (.jumpIf target)) ∨
      (∃ op, program[ip.toNat]? = some (.binary op)) ∨ program[ip.toNat]? = some .ret)
  division : ∀ name, ending = .fault ⟨.divisionByZero, name⟩ →
    program[ip.toNat]? = some (.binary .div)
  /-- The variable of the fault is the one that is read, and no cell belongs to it. -/
  unknown : ∀ name, ending = .fault ⟨.unknownVariable, name⟩ →
    ∃ x, name = some (String.singleton x) ∧ program[ip.toNat]? = some (.load x) ∧
      ∀ cell ∈ stack, cell.name ≠ some (String.singleton x)
  /-- The stack is full, and as it was when the instruction was fetched. -/
  overflow : ∀ name, ending = .fault ⟨.stackOverflow, name⟩ →
    ∃ m, limit = some m ∧ (stack.length : Int) = max m 0 ∧
      ((∃ value, program[ip.toNat]? = some (.const value)) ∨
        ∃ x, program[ip.toNat]? = some (.load x)) ∧
      ⟨ip.toNat, stack⟩ ∈ fetched ∧
      program.step limit ⟨ip.toNat, stack⟩ = .ended ending ⟨ip.toNat, stack⟩
  name_iff : ∀ fault, ending = .fault fault →
    (fault.name ≠ none ↔ fault.kind = .unknownVariable)
  /-- Only the fetch from an empty program fails. -/
  fetch : program ≠ [] → ∀ config ∈ fetched, config.pc < program.length

end Program

/-- **Every ending tells where it happened.** The instruction at the pointer, what is left on the
    stack and the limit are as the ending says, for every program, limit and prior state. -/
theorem Machine.run_endedAt {machine after : Machine} {program : Program} {budget : Nat}
    {report : Report} (h : machine.run program budget = some (report, after)) :
    program.EndedAt machine.limit (program.visited machine.limit budget ⟨0, []⟩) report.ending
      after.ip after.stack := by
  simp only [run, Option.map_eq_some_iff, Prod.mk.injEq] at h
  obtain ⟨⟨ending, ⟨pc, stack⟩, path⟩, hrun, rfl, rfl⟩ := h
  obtain ⟨last, hfetched, hstep⟩ := Program.exists_last_of_runFrom hrun
  have hlast := Program.last_of_step hstep
  have hpc := Program.pc_of_visited last hfetched
  have hwithin := (Stack.within_invariant machine.limit).visited
    (Stack.within_invariant machine.limit).nil last hfetched
  -- any ending but an invalid pointer leaves the pointer where the last fetch was
  have hhere : ending ≠ .fault { kind := .invalidPointer } → last = ⟨pc, last.stack⟩ :=
    fun hending => by rw [show pc = last.pc from hlast.pc_eq hending]
  refine
    { nonneg := Int.natCast_nonneg pc
      invalid_iff := hlast.invalid_iff.trans Int.ofNat_le.symm
      invalid_place := ?_, responsible := ?_, result := ?_, underflow := ?_, division := ?_
      unknown := ?_, overflow := ?_, name_iff := ?_, fetch := ?_ }
  · intro hout
    rcases hlast.left_by hpc (Int.ofNat_le.1 hout) with hend | ⟨instr, hmem, htarget⟩
    · exact Or.inl (congrArg Nat.cast hend)
    · exact Or.inr ⟨instr, hmem, pc, htarget, rfl⟩
  · intro hending
    have heq := hhere hending
    exact ⟨last.stack, heq ▸ hfetched, heq ▸ hstep⟩
  · rintro value rfl
    exact hlast.eq_ret
  · rintro name rfl
    obtain ⟨instr, hfetch, hfail⟩ := hlast.failure (by simp)
    obtain ⟨hempty, hinstr⟩ := hfail.of_underflow
    refine ⟨hempty, ?_⟩
    rcases hinstr with ⟨x, rfl⟩ | ⟨target, rfl⟩ | ⟨op, rfl⟩ | rfl
    · exact Or.inl ⟨x, hfetch⟩
    · exact Or.inr (Or.inl ⟨target, hfetch⟩)
    · exact Or.inr (Or.inr (Or.inl ⟨op, hfetch⟩))
    · exact Or.inr (Or.inr (Or.inr hfetch))
  · rintro name rfl
    obtain ⟨instr, hfetch, hfail⟩ := hlast.failure (by simp)
    exact hfail.of_division ▸ hfetch
  · rintro name rfl
    obtain ⟨instr, hfetch, hfail⟩ := hlast.failure (by simp)
    obtain ⟨x, hname, rfl, habsent⟩ := hfail.of_unknown
    exact ⟨x, hname, hfetch, habsent⟩
  · rintro name rfl
    obtain ⟨instr, hfetch, hfail⟩ := hlast.failure (by simp)
    obtain ⟨m, hm, hlength, hstack, hinstr⟩ := hfail.of_overflow hwithin
    -- neither the pointer nor the stack has moved since the last fetch
    have heq : last = ⟨pc, stack⟩ := by rw [hhere (by simp), ← hstack]
    refine ⟨m, hm, hstack ▸ hlength, ?_, heq ▸ hfetched, heq ▸ hstep⟩
    rcases hinstr with ⟨value, rfl⟩ | ⟨x, rfl⟩
    · exact Or.inl ⟨value, hfetch⟩
    · exact Or.inr ⟨x, hfetch⟩
  · rintro fault rfl
    exact hlast.name_iff
  · intro hne config hconfig
    have hpos := List.length_pos_iff.2 hne
    rcases Program.pc_of_visited config hconfig with hin | hzero <;> omega

/-- A run whose last constant finds no place, on a machine left with a limit of one cell. -/
theorem Machine.run_endedAt_of_one_place :
    run { ip := -4, stack := [⟨some "q", 7⟩], limit := some 1 } [.const 1, .store 'x', .const 2] 9 =
      some (⟨.fault { kind := .stackOverflow }, ⟨2, [⟨some "x", 1⟩]⟩, [0, 1, 2]⟩,
        { ip := 2, stack := [⟨some "x", 1⟩], limit := some 1 }) ∧
    Program.EndedAt [.const 1, .store 'x', .const 2] (some 1)
      (Program.visited [.const 1, .store 'x', .const 2] (some 1) 9 ⟨0, []⟩)
      (.fault { kind := .stackOverflow }) 2 [⟨some "x", 1⟩] :=
  have h : run { ip := -4, stack := [⟨some "q", 7⟩], limit := some 1 }
      [.const 1, .store 'x', .const 2] 9 =
      some (⟨.fault { kind := .stackOverflow }, ⟨2, [⟨some "x", 1⟩]⟩, [0, 1, 2]⟩,
        { ip := 2, stack := [⟨some "x", 1⟩], limit := some 1 }) := by decide
  ⟨h, run_endedAt h⟩

end StackVM
