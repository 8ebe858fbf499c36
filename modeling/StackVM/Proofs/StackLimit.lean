import StackVM.Proofs.Output
import StackVM.Proofs.Steps
import StackVM.Proofs.WellFormedStack

set_option autoImplicit false

/-! # The limit of the stack as a threshold

A run under a limit is the unbounded run, cut off where that would go over the limit. An instruction
outgrows a limit when it leaves more cells on an unbounded stack than the limit allows
(`Program.Outgrows`). Until then both runs do the same (`Program.step_of_not_outgrows`), and there the
bounded one overflows with the stack as it was (`Program.step_of_outgrows`): what an instruction takes
before it pushes cannot make it fit, since an instruction that takes cells never outgrows a limit. -/

namespace StackVM

variable {m : Int}

namespace Stack

variable {name : Option String} {value : Int} {s : Stack}

/-- A push that leaves no more cells than the limit allows does not meet the limit. -/
theorem effect_push_of_fits (h : ((Effect.push none name value s).stack.length : Int) ≤ max m 0) :
    Effect.push (some m) name value s = Effect.push none name value s := by
  by_cases hp : Present name s
  · obtain ⟨x, rfl, hx⟩ := hp
    rw [effect_push_of_holds hx, effect_push_of_holds hx]
  · rw [effect_push_of_place hp rfl, List.length_cons] at h
    have hplace : s.isFull (some m) = false := by
      rw [isFull_some, decide_eq_false_iff_not]
      omega
    rw [effect_push_of_place hp hplace, effect_push_of_place hp rfl]

/-- A push that leaves more cells than the limit allows, on a stack within the limit, is a push of a
    new cell on a full stack. -/
theorem effect_push_of_outgrows (hs : s.Within (some m))
    (h : max m 0 < ((Effect.push none name value s).stack.length : Int)) :
    Effect.push (some m) name value s = ⟨.fail { kind := .stackOverflow }, s⟩ ∧
      (s.length : Int) = max m 0 := by
  have hle := hs m rfl
  by_cases hp : Present name s
  · -- writing in place leaves as many cells as there were
    obtain ⟨x, rfl, hx⟩ := hp
    rw [effect_push_of_holds hx, length_assign] at h
    omega
  · rw [effect_push_of_place hp rfl, List.length_cons] at h
    have hfull : s.isFull (some m) = true := by
      rw [isFull_some, decide_eq_true_eq]
      omega
    exact ⟨effect_push_of_isFull hp hfull, by omega⟩

end Stack

namespace Instr

variable {instr : Instr} {s : Stack}

theorem effect_of_fits (h : ((instr.effect none s).stack.length : Int) ≤ max m 0) :
    instr.effect (some m) s = instr.effect none s := by
  rw [effect_eq] at h
  rw [effect_eq, effect_eq none]
  cases hout : instr.output s with
  | direct control => rfl
  | push name value =>
    rw [hout] at h
    exact Stack.effect_push_of_fits h

/-- An instruction that outgrows the limit has taken no cell, so that it leaves the stack as it
    was. -/
theorem effect_of_outgrows (hs : s.Within (some m))
    (h : max m 0 < ((instr.effect none s).stack.length : Int)) :
    instr.effect (some m) s = ⟨.fail { kind := .stackOverflow }, s⟩ := by
  have hle := hs m rfl
  have hdrop : (s.drop instr.arity).length ≤ s.length := by
    rw [List.length_drop]
    exact Nat.sub_le ..
  rw [effect_eq] at h ⊢
  cases hout : instr.output s with
  | direct control =>
    rw [hout] at h
    simp only [Output.perform] at h
    omega
  | push name value =>
    rw [hout] at h
    have hwithin : Stack.Within (some m) (s.drop instr.arity) := by
      rintro _ ⟨⟩
      omega
    obtain ⟨hpush, hlength⟩ := Stack.effect_push_of_outgrows hwithin h
    have hsame : s.drop instr.arity = s :=
      (List.drop_suffix instr.arity s).eq_of_length (by omega)
    rw [Output.perform, hpush, hsame]

end Instr

namespace Program

/-- The instruction at a configuration would leave more cells than the limit allows, if there were no
    limit. A negative limit allows no cell. -/
def Outgrows (program : Program) (m : Int) (config : Config) : Prop :=
  max m 0 < ((program.step none config).config.stack.length : Int)

instance (program : Program) (m : Int) (config : Config) : Decidable (program.Outgrows m config) :=
  inferInstanceAs (Decidable (max m 0 < ((program.step none config).config.stack.length : Int)))

variable {program : Program} {config start : Config} {past later : List Config} {budget : Nat}

/-! ## One step -/

theorem step_of_not_outgrows (h : ¬ program.Outgrows m config) :
    program.step (some m) config = program.step none config := by
  cases hfetch : program[config.pc]? with
  | none => rw [step_of_not_fetch hfetch, step_of_not_fetch hfetch]
  | some instr =>
    rw [Outgrows, stack_step_of_fetch hfetch, Int.not_lt] at h
    rw [step_of_fetch hfetch, step_of_fetch hfetch, Instr.effect_of_fits h]

/-- Only an instruction of the program outgrows a limit that the stack is within. -/
theorem pc_lt_of_outgrows (hs : config.stack.Within (some m)) (h : program.Outgrows m config) :
    config.pc < program.length := by
  cases hfetch : program[config.pc]? with
  | some instr => exact (List.getElem?_eq_some_iff.1 hfetch).1
  | none =>
    rw [Outgrows, stack_step_of_not_fetch hfetch] at h
    exact absurd (hs m rfl) (Int.not_le.2 h)

theorem step_of_outgrows (hs : config.stack.Within (some m)) (h : program.Outgrows m config) :
    program.step (some m) config = .ended (.fault { kind := .stackOverflow }) config := by
  have hfetch := List.getElem?_eq_getElem (pc_lt_of_outgrows hs h)
  rw [Outgrows, stack_step_of_fetch hfetch] at h
  rw [step_of_fetch hfetch, Instr.effect_of_outgrows hs h]
  rfl

/-- A step that does not outgrow the limit keeps the stack within it. -/
theorem within_of_running {next : Config} (h : ¬ program.Outgrows m config)
    (hstep : program.step none config = .running next) : next.stack.Within (some m) := by
  rintro _ ⟨⟩
  rw [Outgrows, hstep] at h
  exact Int.not_lt.1 h

/-! ## Runs -/

/-- Without an instruction that outgrows the limit the limit changes nothing about a run. -/
theorem run_of_fits (h : ∀ config ∈ program.visited none budget start, ¬ program.Outgrows m config) :
    program.visited (some m) budget start = program.visited none budget start ∧
      program.runFrom (some m) budget start = program.runFrom none budget start := by
  induction budget generalizing start with
  | zero => exact ⟨rfl, rfl⟩
  | succ budget ih =>
    have hsame := step_of_not_outgrows (h start List.mem_cons_self)
    cases hs : program.step none start with
    | ended ending final =>
      rw [hs] at hsame
      rw [visited_of_ended hs, visited_of_ended hsame, runFrom_of_ended hs, runFrom_of_ended hsame]
      exact ⟨rfl, rfl⟩
    | running next =>
      rw [visited_of_running hs] at h ⊢
      rw [hs] at hsame
      obtain ⟨hvisited, hrun⟩ := ih fun config hconfig => h config (List.mem_cons_of_mem _ hconfig)
      rw [visited_of_running hsame, hvisited]
      exact ⟨rfl, by simp only [runFrom, hs, hsame, hrun]⟩

/-- At the first instruction that outgrows the limit the bounded run ends, by an overflow. -/
theorem run_of_outgrows (hs : start.stack.Within (some m))
    (hvisited : program.visited none budget start = past ++ config :: later)
    (hpast : ∀ earlier ∈ past, ¬ program.Outgrows m earlier) (hconfig : program.Outgrows m config) :
    program.visited (some m) budget start = past ++ [config] ∧
      program.runFrom (some m) budget start = some
        ⟨.fault { kind := .stackOverflow }, config, (past ++ [config]).map Config.pc⟩ := by
  induction past generalizing start budget with
  | nil =>
    cases budget with
    | zero => simp [visited] at hvisited
    | succ budget =>
      rw [visited, List.nil_append, List.cons.injEq] at hvisited
      obtain ⟨rfl, -⟩ := hvisited
      have hstep := step_of_outgrows hs hconfig
      rw [visited_of_ended hstep, runFrom_of_ended hstep, if_pos (pc_lt_of_outgrows hs hconfig)]
      exact ⟨rfl, rfl⟩
  | cons first past ih =>
    cases budget with
    | zero => simp [visited] at hvisited
    | succ budget =>
      obtain ⟨hfirst, hrest⟩ := List.forall_mem_cons.1 hpast
      cases hstep : program.step none start with
      | ended ending final =>
        -- an ended run has no further fetch
        rw [visited_of_ended hstep] at hvisited
        simp at hvisited
      | running next =>
        rw [visited_of_running hstep, List.cons_append, List.cons.injEq] at hvisited
        obtain ⟨rfl, hvisited⟩ := hvisited
        have hsame := step_of_not_outgrows hfirst
        rw [hstep] at hsame
        obtain ⟨hlist, hrun⟩ := ih (within_of_running hfirst hstep) hvisited hrest
        rw [visited_of_running hsame, hlist]
        exact ⟨rfl, runFrom_of_running hsame hrun⟩

/-- Either no instruction of a run outgrows the limit, or there is a first one. -/
theorem outgrows_cases (program : Program) (m : Int) (budget : Nat) (start : Config) :
    (∀ config ∈ program.visited none budget start, ¬ program.Outgrows m config) ∨
      ∃ past config later, program.visited none budget start = past ++ config :: later ∧
        (∀ earlier ∈ past, ¬ program.Outgrows m earlier) ∧ program.Outgrows m config := by
  cases hfind : (program.visited none budget start).find? (program.Outgrows m ·) with
  | none =>
    left
    simpa using hfind
  | some config =>
    right
    obtain ⟨hconfig, past, later, hvisited, hpast⟩ := List.find?_eq_some_iff_append.1 hfind
    exact ⟨past, config, later, hvisited, by simpa using hpast, by simpa using hconfig⟩

/-- The path of an unbounded run that ends goes on from the instruction that outgrows the limit. -/
theorem path_prefix_of_outgrows {report : Report} (hs : start.stack.Within (some m))
    (hvisited : program.visited none budget start = past ++ config :: later)
    (hpast : ∀ earlier ∈ past, ¬ program.Outgrows m earlier) (hconfig : program.Outgrows m config)
    (hrun : program.runFrom none budget start = some report) :
    (past ++ [config]).map Config.pc <+: report.path := by
  obtain ⟨hlist, hbounded⟩ := run_of_outgrows hs hvisited hpast hconfig
  -- the bounded run has executed an instruction at every one of its fetches
  have hpath := path_of_runFrom hbounded
  rw [hlist] at hpath
  have hsplit : program.visited none budget start = past ++ [config] ++ later := by
    rw [hvisited, List.append_cons]
  have hlonger := path_of_runFrom hrun
  rw [hsplit, List.map_append, List.filter_append, ← hpath] at hlonger
  rw [hlonger]
  exact List.prefix_append ..

theorem Outgrows.mono {m' : Int} (hle : m ≤ m') (h : program.Outgrows m' config) :
    program.Outgrows m config := by
  unfold Outgrows at h ⊢
  omega

/-- A run that has not overflowed under a limit has not met it. -/
theorem fits_of_not_overflow (hs : start.stack.Within (some m))
    (h : ∀ report, program.runFrom (some m) budget start = some report →
      report.ending ≠ .fault { kind := .stackOverflow }) :
    ∀ config ∈ program.visited none budget start, ¬ program.Outgrows m config := by
  rcases outgrows_cases program m budget start with hfits | ⟨past, config, later, hvisited, hpast, hconfig⟩
  · exact hfits
  · obtain ⟨-, hrun⟩ := run_of_outgrows hs hvisited hpast hconfig
    exact absurd rfl (h _ hrun)

/-- **The limit of the stack is a threshold.** As far as no instruction of the unbounded run leaves
    more cells than the limit allows, the bounded run fetches at the same configurations and ends
    exactly when the unbounded one does, with the same report. At the first instruction that would,
    the bounded run ends with an overflow, in the configuration the instruction is fetched at, and its
    path is that of the unbounded run up to and including this instruction. So a run that has not
    overflowed does the same under any greater limit and under none. -/
theorem limit_is_threshold (program : Program) (m : Int) (budget : Nat) :
    ((∀ config ∈ program.visited none budget ⟨0, []⟩, ¬ program.Outgrows m config) →
      program.visited (some m) budget ⟨0, []⟩ = program.visited none budget ⟨0, []⟩ ∧
      program.run (some m) budget = program.run none budget) ∧
    (∀ past config later, program.visited none budget ⟨0, []⟩ = past ++ config :: later →
      (∀ earlier ∈ past, ¬ program.Outgrows m earlier) → program.Outgrows m config →
      program.visited (some m) budget ⟨0, []⟩ = past ++ [config] ∧
      program.run (some m) budget = some
        ⟨.fault { kind := .stackOverflow }, config, (past ++ [config]).map Config.pc⟩ ∧
      ∀ report, program.run none budget = some report →
        (past ++ [config]).map Config.pc <+: report.path) ∧
    ∀ m', m ≤ m' →
      (∀ report, program.run (some m) budget = some report →
        report.ending ≠ .fault { kind := .stackOverflow }) →
      program.run (some m') budget = program.run (some m) budget ∧
      program.run none budget = program.run (some m) budget := by
  have hempty : Stack.Within (some m) [] := (Stack.within_invariant (some m)).nil
  refine ⟨run_of_fits, ?_, ?_⟩
  · intro past config later hvisited hpast hconfig
    obtain ⟨hlist, hrun⟩ := run_of_outgrows hempty hvisited hpast hconfig
    exact ⟨hlist, hrun, fun report h => path_prefix_of_outgrows hempty hvisited hpast hconfig h⟩
  · intro m' hle hno
    have hfits := fits_of_not_overflow hempty hno
    obtain ⟨-, hrun⟩ := run_of_fits hfits
    obtain ⟨-, hrun'⟩ := run_of_fits fun config hconfig h => hfits config hconfig (h.mono hle)
    exact ⟨hrun'.trans hrun.symm, hrun.symm⟩

/-- A sum that has three operands on the stack at a time. -/
def threeOperands : Program :=
  [.const 1, .const 2, .const 3, .binary .add, .binary .add, .ret]

/-- The sum overflows at its third operand under a limit of two cells, and meets no limit of three or
    more. -/
theorem limit_is_threshold_of_threeOperands :
    threeOperands.visited none 9 ⟨0, []⟩ =
      [⟨0, []⟩, ⟨1, [⟨none, 1⟩]⟩] ++ ⟨2, [⟨none, 2⟩, ⟨none, 1⟩]⟩ ::
        [⟨3, [⟨none, 3⟩, ⟨none, 2⟩, ⟨none, 1⟩]⟩, ⟨4, [⟨none, 5⟩, ⟨none, 1⟩]⟩, ⟨5, [⟨none, 6⟩]⟩] ∧
    threeOperands.run (some 2) 9 = some
      ⟨.fault { kind := .stackOverflow }, ⟨2, [⟨none, 2⟩, ⟨none, 1⟩]⟩, [0, 1, 2]⟩ ∧
    (∀ config ∈ threeOperands.visited none 9 ⟨0, []⟩, ¬ threeOperands.Outgrows 3 config) ∧
    threeOperands.run (some 3) 9 = threeOperands.run none 9 ∧
    (∀ report, threeOperands.run (some 3) 9 = some report →
      report.ending ≠ .fault { kind := .stackOverflow }) ∧
    threeOperands.run (some 7) 9 = threeOperands.run (some 3) 9 := by
  have hvisited : threeOperands.visited none 9 ⟨0, []⟩ =
      [⟨0, []⟩, ⟨1, [⟨none, 1⟩]⟩] ++ ⟨2, [⟨none, 2⟩, ⟨none, 1⟩]⟩ ::
        [⟨3, [⟨none, 3⟩, ⟨none, 2⟩, ⟨none, 1⟩]⟩, ⟨4, [⟨none, 5⟩, ⟨none, 1⟩]⟩, ⟨5, [⟨none, 6⟩]⟩] := by
    decide
  have hfits : ∀ config ∈ threeOperands.visited none 9 ⟨0, []⟩,
      ¬ threeOperands.Outgrows 3 config := by decide
  have hno : ∀ report, threeOperands.run (some 3) 9 = some report →
      report.ending ≠ .fault { kind := .stackOverflow } := by
    have hrun : threeOperands.run (some 3) 9 =
        some ⟨.result 6, ⟨5, []⟩, [0, 1, 2, 3, 4, 5]⟩ := by decide
    rw [hrun]
    rintro report ⟨⟩
    simp
  exact ⟨hvisited,
    ((limit_is_threshold threeOperands 2 9).2.1 _ _ _ hvisited (by decide) (by decide)).2.1, hfits,
    ((limit_is_threshold threeOperands 3 9).1 hfits).2, hno,
    ((limit_is_threshold threeOperands 3 9).2.2 7 (by decide) hno).1⟩

end Program

end StackVM
