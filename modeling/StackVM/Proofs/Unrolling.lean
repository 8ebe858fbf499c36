import StackVM.Proofs.Locality
import StackVM.Proofs.Redirect

set_option autoImplicit false

/-! # Runs unrolled

The instructions that a run executes, written down one after the other, are a program of their own
(`Program.unroll`). Each of its jumps leads to the place that follows, so that it makes no difference
whether a jump is taken, and what an instruction does to the stack does not depend on its place. Hence
the unrolled program goes through itself once, does to the stack what the run did and ends alike
(`Machine.run_unroll`). -/

namespace StackVM

/-- The instruction with its jump, if it is one, to the place that follows `place`. -/
def Instr.onward (place : Nat) (instr : Instr) : Instr := instr.redirect fun _ => place + 1

namespace Program

/-- The instructions at the places of a path, in the order of the path. -/
def along (program : Program) (path : List Nat) : Program := path.filterMap (program[·]?)

/-- The instructions of a path as a program, every jump of which leads to the place that follows. -/
def unroll (program : Program) (path : List Nat) : Program := (program.along path).mapIdx Instr.onward

/-- Where a program of `length` instructions leaves the pointer when it executes one after the other
    until the last one ends the run: behind them if the pointer is invalid, else at the last one. -/
def lastPointer (length : Nat) (ending : Ending) : Nat :=
  if ending = .fault { kind := .invalidPointer } then length else length - 1

variable {p q : Program} {limit : Option Int} {path : List Nat} {place source : Nat} {s : Stack}
  {instr : Instr} {next final : Config} {ending : Ending}

/-! ## The unrolled program -/

theorem map_some_along (h : ∀ place ∈ path, place < p.length) :
    (p.along path).map some = path.map (p[·]?) :=
  map_some_filterMap fun place hplace => ⟨_, List.getElem?_eq_getElem (h place hplace)⟩

theorem length_unroll (h : ∀ place ∈ path, place < p.length) :
    (p.unroll path).length = path.length := by
  have hlength := congrArg List.length (map_some_along h)
  rwa [List.length_map, List.length_map, ← List.length_mapIdx] at hlength

theorem getElem?_unroll (h : ∀ place ∈ path, place < p.length)
    (hsource : path[place]? = some source) :
    (p.unroll path)[place]? = p[source]?.map (Instr.onward place) := by
  have hfetch := congrArg (·[place]?) (map_some_along h)
  simp only [List.getElem?_map, hsource, Option.map_some] at hfetch
  obtain ⟨instr, halong, hinstr⟩ := Option.map_eq_some_iff.1 hfetch
  rw [unroll, List.getElem?_mapIdx, halong, ← hinstr, Option.map_some]

/-! ## Steps -/

/-- What goes on in the program goes on in the unrolled one, with the following place. -/
theorem step_unrolled_of_running (hinstr : p[source]? = some instr)
    (hfetch : q[place]? = some (instr.onward place)) (hindex : Word32.IsIndex (place + 1 : Nat))
    (hin : place + 1 < q.length) (h : p.step limit ⟨source, s⟩ = .running next) :
    q.step limit ⟨place, s⟩ = .running ⟨place + 1, next.stack⟩ := by
  have hstep : p.step limit ⟨source, s⟩ = _ := step_of_fetch hinstr
  have hstep' : q.step limit ⟨place, s⟩ = _ := step_of_fetch_redirect hfetch fun _ _ => hindex
  rw [hstep] at h
  rw [hstep']
  cases hcontrol : (instr.effect limit s).control with
  | next | goto target =>
    rw [hcontrol] at h
    obtain ⟨-, rfl⟩ := Route.step_enter_eq_running_iff.1 h
    exact Route.step_enter_eq_running_iff.2 ⟨hin, rfl⟩
  | halt result | fail fault =>
    rw [hcontrol] at h
    cases h

/-- What ends the run of the program ends that of the unrolled one, at its last place. -/
theorem step_unrolled_of_ended (hinstr : p[source]? = some instr)
    (hfetch : q[place]? = some (instr.onward place)) (hindex : Word32.IsIndex (place + 1 : Nat))
    (hlast : q.length = place + 1) (h : p.step limit ⟨source, s⟩ = .ended ending final) :
    q.step limit ⟨place, s⟩ = .ended ending ⟨lastPointer q.length ending, final.stack⟩ := by
  have hstep : p.step limit ⟨source, s⟩ = _ := step_of_fetch hinstr
  have hstep' : q.step limit ⟨place, s⟩ = _ := step_of_fetch_redirect hfetch fun _ _ => hindex
  rw [hstep] at h
  rw [hstep', hlast]
  have hcourse := instr.course_of_effect limit s
  generalize instr.effect limit s = effect at h hcourse ⊢
  cases hcourse with
  | next | goto =>
    obtain ⟨-, rfl, rfl⟩ := Route.step_enter_eq_ended_iff.1 h
    refine Route.step_enter_eq_ended_iff.2 ⟨Nat.le_refl _, rfl, ?_⟩
    rw [lastPointer, if_pos rfl]
  | halt =>
    cases h
    rw [lastPointer, if_neg (by simp)]
    rfl
  | @fail fault _ hfail =>
    cases h
    have hvalid : Ending.fault fault ≠ .fault { kind := .invalidPointer } := by
      rintro ⟨⟩
      exact hfail.kind_ne_invalidPointer rfl
    rw [lastPointer, if_neg hvalid]
    rfl

/-! ## Runs -/

/-- A program that has the instructions of a run from some place on, and no more, executes them one
    after the other from there. -/
theorem runFrom_unrolled {budget : Nat} {report : Report} (hin : source < p.length)
    (h : p.runFrom limit budget ⟨source, s⟩ = some report)
    (hfetch : ∀ k i, report.path[k]? = some i →
      q[place + k]? = p[i]?.map (Instr.onward (place + k)))
    (hlength : q.length = place + report.path.length) (hindex : Word32.IsIndex q.length) :
    q.runFrom limit budget ⟨place, s⟩ = some
      ⟨report.ending, ⟨lastPointer q.length report.ending, report.final.stack⟩,
        List.range' place report.path.length⟩ := by
  generalize hstart : (⟨source, s⟩ : Config) = start at h
  induction budget, start, report, h using runFrom_induction generalizing source s place with
  | ended budget start ending final hs =>
    subst hstart
    rw [if_pos hin] at hfetch hlength ⊢
    have hinstr := List.getElem?_eq_getElem hin
    have hhere : q[place]? = p[source]?.map (Instr.onward place) := hfetch 0 source rfl
    rw [hinstr] at hhere
    have hstep := step_unrolled_of_ended hinstr hhere (hlength ▸ hindex) hlength hs
    have hplace : place < q.length := by
      rw [hlength]
      exact Nat.lt_succ_self place
    rw [runFrom_of_ended hstep, if_pos hplace]
    rfl
  | running budget start next rest hs hrest ih =>
    subst hstart
    have hinstr := List.getElem?_eq_getElem hin
    have hhere : q[place]? = p[source]?.map (Instr.onward place) := hfetch 0 source rfl
    rw [hinstr] at hhere
    have hnext := pc_lt_of_step hs
    have hlength' : q.length = place + 1 + rest.path.length := by
      rw [hlength, Report.after, List.length_cons]
      omega
    -- the run executes one more instruction at least, so the program goes on here
    have hmore := List.length_pos_of_mem (mem_path_of_runFrom hnext hrest)
    have hplace : place + 1 < q.length := by omega
    have hindex' : Word32.IsIndex (place + 1 : Nat) := by
      simp only [Word32.IsIndex] at hindex ⊢
      omega
    have hstep := step_unrolled_of_running hinstr hhere hindex' hplace hs
    have hlater : ∀ k i, rest.path[k]? = some i →
        q[place + 1 + k]? = p[i]?.map (Instr.onward (place + 1 + k)) := by
      intro k i hk
      have hshift : place + 1 + k = place + (k + 1) := by omega
      rw [hshift]
      exact hfetch (k + 1) i hk
    exact runFrom_of_running hstep (ih hnext hlater hlength' rfl)

end Program

/-- **Every ending run can be replayed as straight-line code.** The program that has the instructions
    of its path, as many as they are and in their order, with every jump to the place that follows,
    executes each of them once under the same limit. It ends as the run did and leaves the same stack,
    with the pointer behind its last instruction if the pointer is invalid, and else at the last one. -/
theorem Machine.run_unroll {machine after : Machine} {program : Program} {budget : Nat}
    {report : Report} (h : machine.run program budget = some (report, after))
    (hindex : Word32.IsIndex report.path.length) :
    (program.unroll report.path).length = report.path.length ∧
    (∀ k place, report.path[k]? = some place →
      (program.unroll report.path)[k]? = program[place]?.map (Instr.onward k)) ∧
    ∃ other last, machine.run (program.unroll report.path) budget = some (other, last) ∧
      other.path = List.range report.path.length ∧ other.ending = report.ending ∧
      last.stack = after.stack ∧
      last.ip = Program.lastPointer report.path.length report.ending := by
  simp only [run, Option.map_eq_some_iff, Prod.mk.injEq] at h
  obtain ⟨report, hrun, rfl, rfl⟩ := h
  have hpath : ∀ place ∈ report.path, place < program.length := by
    intro place hplace
    rw [Program.path_of_runFrom hrun, List.mem_filter] at hplace
    exact of_decide_eq_true hplace.2
  have hlength := Program.length_unroll hpath
  have hfetch : ∀ k place, report.path[k]? = some place →
      (program.unroll report.path)[k]? = program[place]?.map (Instr.onward k) :=
    fun _ _ => Program.getElem?_unroll hpath
  refine ⟨hlength, hfetch, ?_⟩
  by_cases hempty : program = []
  · -- the run of the empty program fails at its only fetch, and there is nothing to unroll
    subst hempty
    have hreport : report = ⟨.fault { kind := .invalidPointer }, ⟨0, []⟩, []⟩ := by
      cases budget with
      | zero => cases hrun
      | succ budget => exact (Option.some.inj hrun).symm
    subst hreport
    exact ⟨_, _, congrArg (Option.map _) hrun, rfl, rfl, rfl, rfl⟩
  · have hin : 0 < program.length := List.length_pos_iff.2 hempty
    have hrun' : (program.unroll report.path).run machine.limit budget = _ :=
      Program.runFrom_unrolled hin hrun
        (fun k place hk => by rw [Nat.zero_add, hfetch k place hk])
        (by rw [hlength, Nat.zero_add]) (by rwa [hlength])
    refine ⟨_, _, congrArg (Option.map _) hrun', List.range_eq_range'.symm, rfl, rfl, ?_⟩
    rw [hlength]

/-- Goes through its middle twice, passes by a jump the first time and takes it the second time, out of
    the program. -/
def Program.twoRounds : Program :=
  [.const 1, .const 0, .const 1, .jumpIf 5, .ret, .jumpIf 20, .jump 2]

/-- The two rounds without a jump back. -/
theorem Machine.run_unroll_of_twoRounds :
    run { ip := 6, limit := some 3 } .twoRounds 12 =
      some (⟨.fault { kind := .invalidPointer }, ⟨20, []⟩, [0, 1, 2, 3, 5, 6, 2, 3, 5]⟩,
        { ip := 20, limit := some 3 }) ∧
    Word32.IsIndex ([0, 1, 2, 3, 5, 6, 2, 3, 5] : List Nat).length ∧
    Program.twoRounds.unroll [0, 1, 2, 3, 5, 6, 2, 3, 5] =
      [.const 1, .const 0, .const 1, .jumpIf 4, .jumpIf 5, .jump 6, .const 1, .jumpIf 8,
        .jumpIf 9] ∧
    ∃ other last, run { ip := 6, limit := some 3 }
        (Program.twoRounds.unroll [0, 1, 2, 3, 5, 6, 2, 3, 5]) 12 = some (other, last) ∧
      other.path = [0, 1, 2, 3, 4, 5, 6, 7, 8] ∧
      other.ending = .fault { kind := .invalidPointer } ∧ last.stack = [] ∧ last.ip = 9 := by
  have hrun : run { ip := 6, limit := some 3 } .twoRounds 12 =
      some (⟨.fault { kind := .invalidPointer }, ⟨20, []⟩, [0, 1, 2, 3, 5, 6, 2, 3, 5]⟩,
        { ip := 20, limit := some 3 }) := by decide
  have hindex : Word32.IsIndex ([0, 1, 2, 3, 5, 6, 2, 3, 5] : List Nat).length := by decide
  exact ⟨hrun, hindex, by decide, (run_unroll hrun hindex).2.2⟩

end StackVM
