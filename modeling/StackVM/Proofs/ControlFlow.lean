import Mathlib.Data.List.Chain
import StackVM.Proofs.Endings
import StackVM.Proofs.Steps

set_option autoImplicit false

/-! # The path of a run

The places that a run executes are a path through its program: from each place control passes to
the following one or along a jump, and from a return it passes nowhere (`Program.Edge`). A trace
shows the lines of these places, and whether it is written makes no difference to the run
(`Machine.trace_isPath`). -/

namespace StackVM

/-! ## Where control passes -/

namespace Instr

/-- Whether control may pass to the following instruction. -/
def fallsThrough : Instr → Bool
  | .const _ | .store _ | .load _ | .binary _ | .jumpIf _ => true
  | .jump _ | .ret => false

variable {limit : Option Int} {instr : Instr} {s : Stack}

theorem fallsThrough_of_next (h : (instr.effect limit s).control = .next) :
    instr.fallsThrough = true := by
  cases instr with
  | jump target => cases h
  | ret => cases s <;> cases h
  | const | store | load | binary | jumpIf => rfl

theorem target?_of_goto {target : Nat} (h : (instr.effect limit s).control = .goto target) :
    instr.target? = some target := by
  have hcourse := instr.course_of_effect limit s
  generalize instr.effect limit s = effect at h hcourse
  cases hcourse with
  | goto htarget =>
    cases h
    exact htarget
  | next | halt | fail => cases h

end Instr

namespace Program

/-- Control may pass from one place of a program to another: to the following place, unless the
    instruction is a return or jumps always, or to the target of a jump. -/
def Edge (program : Program) (source target : Nat) : Prop :=
  ∃ instr, program[source]? = some instr ∧
    ((instr.fallsThrough = true ∧ target = source + 1) ∨ instr.target? = some target)

variable {program : Program} {limit : Option Int} {start config next last final : Config}
  {past : List Config} {path : List Nat} {place : Nat} {ending : Ending}

/-- A return is the end of every path. -/
theorem not_edge_of_ret {target : Nat} (h : program[place]? = some .ret) :
    ¬ program.Edge place target := by
  rintro ⟨instr, hfetch, hflow⟩
  rw [h, Option.some.injEq] at hfetch
  subst hfetch
  simp [Instr.fallsThrough, Instr.target?] at hflow

/-- A step that goes on passes along an edge. -/
theorem edge_of_running (h : program.step limit config = .running next) :
    program.Edge config.pc next.pc := by
  obtain ⟨instr, hfetch⟩ : ∃ instr, program[config.pc]? = some instr :=
    ⟨_, List.getElem?_eq_getElem (pc_lt_of_running h)⟩
  refine ⟨instr, hfetch, ?_⟩
  rw [step_of_fetch hfetch] at h
  cases hcontrol : (instr.effect limit config.stack).control with
  | next =>
    rw [hcontrol] at h
    obtain ⟨-, hnext⟩ := Route.step_enter_eq_running_iff.1 h
    exact Or.inl ⟨Instr.fallsThrough_of_next hcontrol, congrArg Config.pc hnext⟩
  | goto target =>
    rw [hcontrol] at h
    obtain ⟨-, hnext⟩ := Route.step_enter_eq_running_iff.1 h
    exact Or.inr (hnext ▸ Instr.target?_of_goto hcontrol)
  | halt value | fail fault =>
    rw [hcontrol] at h
    cases h

/-- The places of a run so far are a path. -/
theorem Steps.isChain (h : program.Steps limit start past config) :
    ((past ++ [config]).map Config.pc).IsChain program.Edge := by
  induction h with
  | refl => exact List.isChain_singleton _
  | tail hpast hstep ih =>
    rw [List.map_append, List.isChain_append]
    refine ⟨ih, List.isChain_singleton _, ?_⟩
    intro source hsource target htarget
    rw [List.map_append, List.map_singleton, List.getLast?_concat, Option.mem_some_iff] at hsource
    rw [List.map_singleton, List.head?_cons, Option.mem_some_iff] at htarget
    subst hsource htarget
    exact edge_of_running hstep

theorem Steps.head?_eq (h : program.Steps limit start past config) :
    (past ++ [config]).head? = some start := by
  induction h with
  | refl => rfl
  | tail hpast hstep ih => rw [List.head?_append, ih, Option.some_or]

/-- Nothing comes after a return on a path. -/
theorem eq_nil_of_ret {before after : List Nat}
    (h : (before ++ place :: after).IsChain program.Edge)
    (hret : program[place]? = some .ret) : after = [] := by
  cases after with
  | nil => rfl
  | cons next after =>
    have hedge := (List.isChain_cons_cons.1 (List.isChain_append.1 h).2.1).1
    exact absurd hedge (not_edge_of_ret hret)

/-- The last step of a run moves the pointer only when it leaves the program, to the place that
    follows or by a jump. -/
theorem Last.leaves {fault : Fault} (h : program.Last limit last (.fault fault) final)
    (hlast : last.pc < program.length) (hkind : fault.kind = .invalidPointer) :
    (final.pc = last.pc + 1 ∧ last.pc + 1 = program.length) ∨
      ∃ instr, program[last.pc]? = some instr ∧ instr.target? = some final.pc := by
  cases h with
  | outside hout => omega
  | leave hfetch htarget hout =>
    rcases htarget with rfl | hjump
    · exact Or.inl ⟨rfl, by omega⟩
    · exact Or.inr ⟨_, hfetch, hjump⟩
  | fail hfetch hfail => exact absurd hkind hfail.kind_ne_invalidPointer

/-! ## The path of a run that ends -/

/-- What is found at every place of a path is found in the order of the path. -/
theorem map_some_filterMap {α : Type} {f : Nat → Option α}
    (h : ∀ place ∈ path, ∃ found, f place = some found) :
    (path.filterMap f).map some = path.map f := by
  induction path with
  | nil => rfl
  | cons place path ih =>
    obtain ⟨hplace, hpath⟩ := List.forall_mem_cons.1 h
    obtain ⟨found, hfound⟩ := hplace
    rw [List.filterMap_cons_some hfound, List.map_cons, List.map_cons, hfound, ih hpath]

/-- The lines of places in a program are lines of its listing. -/
theorem map_some_trace (h : ∀ place ∈ path, place < program.length) :
    (program.trace path).map some = path.map (program.listing[·]?) := by
  simp only [getElem?_listing]
  refine map_some_filterMap fun place hplace => ?_
  have hin := h place hplace
  exact ⟨program[place].line place, by rw [line?, List.getElem?_eq_getElem hin, Option.map_some]⟩

/-- The places that a run executes before it ends at `ip`, as a path through the program. -/
structure Path (program : Program) (path : List Nat) (ending : Ending) (ip : Int) : Prop where
  /-- Only a run of the empty program executes nothing. -/
  nil_iff : path = [] ↔ program = []
  start : program ≠ [] → path.head? = some 0
  edges : path.IsChain program.Edge
  ret_last : ∀ before place after, path = before ++ place :: after →
    program[place]? = some .ret → after = []
  /-- An ending that is no invalid pointer leaves the pointer at the last place. -/
  stays : ending ≠ .fault { kind := .invalidPointer } →
    ∃ last : Nat, path.getLast? = some last ∧ ip = last
  /-- An invalid pointer has left the program from the last place. -/
  leaves : ∀ fault, ending = .fault fault → fault.kind = .invalidPointer → program ≠ [] →
    ∃ last : Nat, path.getLast? = some last ∧
      ((ip = last + 1 ∧ last + 1 = program.length) ∨
        ∃ instr, ∃ target : Nat, program[last]? = some instr ∧ instr.target? = some target ∧
          ip = target)

/-- A run fetches from a program that is not empty only where it executes an instruction. -/
theorem pc_lt_of_visited (hne : program ≠ []) {budget : Nat} :
    ∀ config ∈ program.visited limit budget ⟨0, []⟩, config.pc < program.length := by
  intro config hconfig
  have hpos := List.length_pos_iff.2 hne
  rcases pc_of_visited config hconfig with hin | hzero <;> omega

/-- The path of a run has a place for each of its fetches. -/
theorem path_of_run {budget : Nat} {report : Report} (hne : program ≠ [])
    (h : program.run limit budget = some report) :
    report.path = (program.visited limit budget ⟨0, []⟩).map Config.pc := by
  rw [path_of_runFrom h, List.filter_eq_self]
  intro place hplace
  obtain ⟨config, hconfig, rfl⟩ := List.mem_map.1 hplace
  exact decide_eq_true (pc_lt_of_visited hne config hconfig)

/-- The empty program fails at its only fetch. -/
theorem isPath_nil {final : Config} : Path [] [] (.fault { kind := .invalidPointer }) final.pc where
  nil_iff := by simp
  start := fun hne => absurd rfl hne
  edges := List.isChain_nil
  ret_last := by simp
  stays := fun hno => absurd rfl hno
  leaves := fun _ _ _ hne => absurd rfl hne

theorem isPath_of_run {budget : Nat} {report : Report}
    (h : program.run limit budget = some report) :
    program.Path report.path report.ending report.final.pc := by
  obtain ⟨past, last, hsteps, hend, hvisited⟩ := exists_steps_of_runFrom h
  have hlast := last_of_step hend
  by_cases hempty : program = []
  · subst hempty
    have hpath : report.path = [] := by
      rw [path_of_runFrom h]
      simp
    rw [hpath, hlast.invalid_iff.2 (Nat.zero_le _)]
    exact isPath_nil
  · have hpath : report.path = (past ++ [last]).map Config.pc := by
      rw [path_of_run hempty h, hvisited]
    have hin : last.pc < program.length := pc_lt_of_visited hempty last hsteps.mem_visited
    have hgetLast : report.path.getLast? = some last.pc := by
      rw [hpath, List.map_append, List.map_singleton, List.getLast?_concat]
    have hchain : report.path.IsChain program.Edge := hpath ▸ hsteps.isChain
    refine
      { nil_iff := by simp [hpath, hempty]
        start := ?_
        edges := hchain
        ret_last := fun _ _ _ hsplit hret => eq_nil_of_ret (hsplit ▸ hchain) hret
        stays := fun hno => ⟨last.pc, hgetLast, congrArg Nat.cast (hlast.pc_eq hno)⟩
        leaves := ?_ }
    · intro _
      rw [hpath, List.head?_map, hsteps.head?_eq]
      rfl
    · intro fault hfault hkind _
      refine ⟨last.pc, hgetLast, ?_⟩
      rw [hfault] at hlast
      rcases hlast.leaves hin hkind with ⟨hnext, hlength⟩ | ⟨instr, hfetch, htarget⟩
      · exact Or.inl ⟨congrArg Nat.cast hnext, hlength⟩
      · exact Or.inr ⟨instr, report.final.pc, hfetch, htarget, rfl⟩

end Program

/-- **A trace is the path of its run, and writing it changes nothing.** A run comes to the same
    ending, pointer and stack whether its machine is tracing or not. The lines that it writes are
    those of the listing at the places it executes, one for each fetch from a program that is not
    empty, and these places are a path through the program that ends where the run does. -/
theorem Machine.trace_isPath {machine after : Machine} {program : Program} {budget : Nat}
    {report : Report} (h : machine.run program budget = some (report, after)) :
    (∀ on, { machine with tracing := on }.run program budget =
      some (report, { after with tracing := on })) ∧
    { machine with tracing := false }.lines program report = [] ∧
    ({ machine with tracing := true }.lines program report).map some =
      report.path.map (program.listing[·]?) ∧
    (program ≠ [] →
      report.path = (program.visited machine.limit budget ⟨0, []⟩).map Config.pc) ∧
    program.Path report.path report.ending after.ip := by
  simp only [run, Option.map_eq_some_iff, Prod.mk.injEq] at h
  obtain ⟨report, hrun, rfl, rfl⟩ := h
  have hpath := Program.isPath_of_run hrun
  refine ⟨?_, rfl, ?_, fun hne => Program.path_of_run hne hrun, hpath⟩
  · intro on
    rw [run, hrun]
    rfl
  · refine Program.map_some_trace fun place hplace => ?_
    rw [Program.path_of_runFrom hrun, List.mem_filter] at hplace
    exact of_decide_eq_true hplace.2

/-- One jump is passed by, one is taken, and a third leaves the program. -/
def Program.threeJumps : Program :=
  [.const 1, .const 0, .jumpIf 9, .jumpIf 5, .ret, .const 3, .jump 8]

/-- The path of the three jumps, on a machine that has been used before. -/
theorem Machine.trace_isPath_of_threeJumps :
    run { ip := 5, stack := [⟨some "q", 7⟩], limit := some 2 } .threeJumps 9 =
      some (⟨.fault { kind := .invalidPointer }, ⟨8, [⟨none, 3⟩]⟩, [0, 1, 2, 3, 5, 6]⟩,
        { ip := 8, stack := [⟨none, 3⟩], limit := some 2 }) ∧
    run { ip := 5, stack := [⟨some "q", 7⟩], limit := some 2, tracing := true } .threeJumps 9 =
      some (⟨.fault { kind := .invalidPointer }, ⟨8, [⟨none, 3⟩]⟩, [0, 1, 2, 3, 5, 6]⟩,
        { ip := 8, stack := [⟨none, 3⟩], limit := some 2, tracing := true }) ∧
    Program.threeJumps.Path [0, 1, 2, 3, 5, 6] (.fault { kind := .invalidPointer }) 8 := by
  have h : run { ip := 5, stack := [⟨some "q", 7⟩], limit := some 2 } .threeJumps 9 =
      some (⟨.fault { kind := .invalidPointer }, ⟨8, [⟨none, 3⟩]⟩, [0, 1, 2, 3, 5, 6]⟩,
        { ip := 8, stack := [⟨none, 3⟩], limit := some 2 }) := by decide
  obtain ⟨htracing, -, -, -, hpath⟩ := trace_isPath h
  exact ⟨h, htracing true, hpath⟩

end StackVM
