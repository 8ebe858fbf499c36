import Mathlib.Data.List.Nodup
import StackVM.Machine
import StackVM.Proofs.Steps

set_option autoImplicit false

/-! # Runs that come back

What a run does from a configuration depends on nothing that came before. A run that comes back to a
configuration therefore goes round and round, and each round uses up more of any budget
(`Program.runFrom_eq_none_of_cycle`). So the configurations that an ending run fetches at are pairwise
distinct (`Machine.repeats_no_configuration`). -/

namespace StackVM

namespace Program

variable {program : Program} {limit : Option Int} {start config : Config} {past : List Config}

/-- A run ends just when it does from a configuration it comes to, with the budget that is left. -/
theorem Steps.runFrom_eq_none_iff (h : program.Steps limit start past config) (budget : Nat) :
    program.runFrom limit (past.length + budget) start = none ↔
      program.runFrom limit budget config = none := by
  rw [h.runFrom_eq, Option.map_eq_none_iff]

/-- A run that comes back to where it starts never ends. -/
theorem runFrom_eq_none_of_cycle (h : program.Steps limit start past start) (hne : past ≠ [])
    (budget : Nat) : program.runFrom limit budget start = none := by
  have hrounds : ∀ count, program.runFrom limit (past.length * count) start = none := by
    intro count
    induction count with
    | zero => rfl
    | succ count ih =>
      rw [Nat.mul_succ, Nat.add_comm]
      exact (h.runFrom_eq_none_iff _).2 ih
  -- a budget that the run ended within would be enough for as many rounds
  cases hrun : program.runFrom limit budget start with
  | none => rfl
  | some report =>
    have hpos : 0 < past.length := List.length_pos_iff.2 hne
    have hlonger := runFrom_mono (Nat.le_mul_of_pos_left budget hpos) hrun
    rw [hrounds budget] at hlonger
    cases hlonger

/-- A run that fetches twice at one configuration never ends. -/
theorem runFrom_eq_none_of_not_nodup {budget : Nat}
    (h : ¬ (program.visited limit budget start).Nodup) (n : Nat) :
    program.runFrom limit n start = none := by
  induction budget generalizing start n with
  | zero => exact absurd List.nodup_nil h
  | succ budget ih =>
    cases hs : program.step limit start with
    | ended ending final =>
      rw [visited_of_ended hs] at h
      exact absurd (List.nodup_singleton start) h
    | running next =>
      rw [visited_of_running hs, List.nodup_cons, not_and_or, not_not] at h
      rcases h with hback | hlater
      · obtain ⟨past, later, hvisited⟩ := List.append_of_mem hback
        have hcycle : program.Steps limit start (start :: past) start :=
          (steps_of_visited_eq hvisited).head hs
        exact runFrom_eq_none_of_cycle hcycle (List.cons_ne_nil start past) n
      · cases n with
        | zero => rfl
        | succ n => simp only [runFrom, hs, ih hlater n, Option.map_none]

end Program

/-- **An ending run repeats no configuration.** The pointers and stacks at its fetches are pairwise
    distinct, whatever the machine was used for before. A run that has the same pointer and stack at two
    of its fetches has not ended after any number of instructions. -/
theorem Machine.repeats_no_configuration (machine : Machine) (program : Program) :
    (∀ budget report after, machine.run program budget = some (report, after) →
      (program.visited machine.limit budget ⟨0, []⟩).Nodup) ∧
    ∀ (budget i j : Nat) (config : Config), i ≠ j →
      (program.visited machine.limit budget ⟨0, []⟩)[i]? = some config →
      (program.visited machine.limit budget ⟨0, []⟩)[j]? = some config →
      ∀ n, machine.run program n = none := by
  constructor
  · intro budget report after hrun
    simp only [run, Option.map_eq_some_iff] at hrun
    obtain ⟨report, hrun, -⟩ := hrun
    by_contra hrepeats
    have hnever : program.run machine.limit budget = none :=
      Program.runFrom_eq_none_of_not_nodup hrepeats budget
    rw [hrun] at hnever
    cases hnever
  · intro budget i j config hij hi hj n
    have hrepeats : ¬ (program.visited machine.limit budget ⟨0, []⟩).Nodup := by
      intro hnodup
      have hin := (List.getElem?_eq_some_iff.1 hi).1
      exact hij ((List.getElem?_inj hin hnodup).1 (hi.trans hj.symm))
    have hnever : program.run machine.limit n = none :=
      Program.runFrom_eq_none_of_not_nodup hrepeats n
    rw [run, hnever, Option.map_none]

/-- Pushes the constants, takes the last of them and goes back to the beginning if it is 1. -/
def Program.roundOf (constants : List Int32) : Program := constants.map .const ++ [.jumpIf 0]

/-- A round of two constants leaves one of them behind and overflows at last, without a configuration
    repeated though places are. A round of one constant leaves nothing behind and goes on for ever. -/
theorem Machine.repeats_no_configuration_of_rounds :
    run { ip := 3, limit := some 2 } (.roundOf [1, 1]) 9 =
      some (⟨.fault { kind := .stackOverflow }, ⟨1, [⟨none, 1⟩, ⟨none, 1⟩]⟩, [0, 1, 2, 0, 1]⟩,
        { ip := 1, stack := [⟨none, 1⟩, ⟨none, 1⟩], limit := some 2 }) ∧
    (Program.visited (.roundOf [1, 1]) (some 2) 9 ⟨0, []⟩).Nodup ∧
    (Program.visited (.roundOf [1]) (some 2) 3 ⟨0, []⟩)[0]? = some ⟨0, []⟩ ∧
    (Program.visited (.roundOf [1]) (some 2) 3 ⟨0, []⟩)[2]? = some ⟨0, []⟩ ∧
    ∀ n, run { ip := 3, limit := some 2 } (.roundOf [1]) n = none := by
  have hends : run { ip := 3, limit := some 2 } (.roundOf [1, 1]) 9 =
      some (⟨.fault { kind := .stackOverflow }, ⟨1, [⟨none, 1⟩, ⟨none, 1⟩]⟩, [0, 1, 2, 0, 1]⟩,
        { ip := 1, stack := [⟨none, 1⟩, ⟨none, 1⟩], limit := some 2 }) := by decide
  have hfirst : (Program.visited (.roundOf [1]) (some 2) 3 ⟨0, []⟩)[0]? = some ⟨0, []⟩ := by decide
  have hagain : (Program.visited (.roundOf [1]) (some 2) 3 ⟨0, []⟩)[2]? = some ⟨0, []⟩ := by decide
  exact ⟨hends, (repeats_no_configuration _ _).1 _ _ _ hends, hfirst, hagain,
    (repeats_no_configuration { ip := 3, limit := some 2 } _).2 _ _ _ _ (by decide) hfirst hagain⟩

end StackVM
