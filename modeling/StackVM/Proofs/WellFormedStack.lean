import StackVM.Proofs.StackInvariant

set_option autoImplicit false

/-! # The stack stays well formed

Two properties survive everything but overwriting the stack or its limit: no two cells belong to one
variable, and the stack keeps within its limit. A run restores both, whatever the stack held before
it. -/

namespace StackVM

namespace Stack

/-- No two cells belong to one variable. -/
def DistinctNames (s : Stack) : Prop :=
  s.Pairwise fun a b => a.name = b.name → a.name = none

instance (s : Stack) : Decidable s.DistinctNames :=
  inferInstanceAs (Decidable (s.Pairwise fun a b => a.name = b.name → a.name = none))

/-- The stack has no more cells than its limit allows. A negative limit allows none. -/
def Within (limit : Option Int) (s : Stack) : Prop :=
  ∀ m, limit = some m → (s.length : Int) ≤ max m 0

/-- A stack within its limit leaves a place when a cell has been taken from it. -/
theorem Within.isFull_tail {limit : Option Int} {cell : Cell} {s : Stack}
    (h : Within limit (cell :: s)) : s.isFull limit = false := by
  cases limit with
  | none => rfl
  | some m =>
    have hle := h m rfl
    rw [List.length_cons] at hle
    rw [isFull_some, decide_eq_false_iff_not]
    omega

theorem distinctNames_cons_iff {cell : Cell} {s : Stack} :
    DistinctNames (cell :: s) ↔
      (∀ x, cell.name = some x → s.holds x = false) ∧ s.DistinctNames := by
  -- what `Pairwise` asks of the top cell, said of its name instead
  have hfresh : (∀ b ∈ s, cell.name = b.name → cell.name = none) ↔
      ∀ x, cell.name = some x → s.holds x = false := by
    constructor
    · intro h x hx
      rw [Bool.eq_false_iff, Ne, holds_eq_true_iff, List.mem_map]
      rintro ⟨b, hb, hbx⟩
      have hnone := h b hb (hx.trans hbx.symm)
      rw [hx] at hnone
      exact absurd hnone (Option.some_ne_none x)
    · intro h b hb heq
      cases hx : cell.name with
      | none => rfl
      | some x =>
        have hheld : s.holds x = true :=
          holds_eq_true_iff.2 (List.mem_map.2 ⟨b, hb, heq.symm.trans hx⟩)
        exact absurd hheld (Bool.eq_false_iff.1 (h x hx))
  unfold DistinctNames
  rw [List.pairwise_cons, hfresh]

/-- Writing a variable in place keeps the names where they are. -/
theorem DistinctNames.assign {s : Stack} (h : s.DistinctNames) (x : String) (value : Int) :
    (s.assign x value).DistinctNames := by
  unfold DistinctNames Stack.assign
  rw [List.pairwise_map]
  simp only [Cell.name_assign]
  exact h

/-- Names stay distinct under any limit: a push puts a new cell only for a variable that has none
    yet. -/
theorem distinctNames_invariant (limit : Option Int) : Invariant limit DistinctNames where
  nil := List.Pairwise.nil
  tail h := h.of_cons
  push := by
    intro name value s t hs hpush
    rcases push_cases hpush with ⟨x, rfl, -, rfl⟩ | ⟨habsent, -, rfl⟩
    · exact hs.assign x value
    · refine distinctNames_cons_iff.2 ⟨?_, hs⟩
      rintro x rfl
      rwa [present_some_iff, Bool.not_eq_true] at habsent

/-- A push puts a new cell only where the limit leaves a place. -/
theorem within_invariant (limit : Option Int) : Invariant limit (Within limit) where
  nil := by
    intro m _
    exact Int.le_max_right m 0
  tail := by
    intro cell s h m hm
    have := h m hm
    simp only [List.length_cons] at this
    omega
  push := by
    intro name value s t hs hpush m hm
    rcases push_cases hpush with ⟨x, rfl, -, rfl⟩ | ⟨-, hplace, rfl⟩
    · rw [length_assign]
      exact hs m hm
    · subst hm
      simp only [isFull_some, decide_eq_false_iff_not] at hplace
      simp only [List.length_cons]
      omega

/-- Names are distinct and the stack is within its limit. -/
def WellFormed (limit : Option Int) (s : Stack) : Prop := s.DistinctNames ∧ s.Within limit

theorem wellFormed_invariant (limit : Option Int) : Invariant limit (WellFormed limit) where
  nil := ⟨(distinctNames_invariant limit).nil, (within_invariant limit).nil⟩
  tail h := ⟨(distinctNames_invariant limit).tail h.1, (within_invariant limit).tail h.2⟩
  push h hpush :=
    ⟨(distinctNames_invariant limit).push h.1 hpush, (within_invariant limit).push h.2 hpush⟩

end Stack

namespace Machine

theorem create_eq_ok_iff {limit : Option Int} {tracing : Bool} {machine : Machine} :
    create limit tracing = .ok machine ↔
      (∀ m, limit = some m → 1 ≤ m) ∧ machine = { limit, tracing } := by
  cases limit with
  | none => simp [create, eq_comm]
  | some m =>
    by_cases hm : m < 1
    · have hm' : ¬ 1 ≤ m := by omega
      simp [create, hm, hm']
    · have hm' : 1 ≤ m := by omega
      simp [create, hm, hm', eq_comm]

/-- **The stack stays well formed.** In every state of a session of a new machine, as long as
    neither the stack nor the limit is overwritten, no two cells belong to one variable and the
    stack is within its limit. A machine in any state has both properties again wherever a run
    fetches and where it ends, a negative limit allowing no cells. -/
theorem stack_wellFormed_throughout :
    (∀ (limit : Option Int) (tracing : Bool) (machine : Machine) (budget : Nat)
        (actions : List Action),
      create limit tracing = .ok machine →
      (∀ action ∈ actions, action.assignsStack = false ∧ action.assignsLimit = false) →
      ∀ state ∈ machine.history budget actions,
        state.stack.DistinctNames ∧ ∀ m, limit = some m → (state.stack.length : Int) ≤ m) ∧
    (∀ (machine : Machine) (budget : Nat) (raws : List RawInstr) (program : Program),
      Program.build raws = .ok program →
      ∀ state : Machine,
        (state ∈ machine.inside budget (.run raws) ∨
          ∃ outcome, machine.act budget (.run raws) = some outcome ∧ outcome.machine = state) →
        state.stack.DistinctNames ∧
          ∀ m, machine.limit = some m → (state.stack.length : Int) ≤ max m 0) := by
  constructor
  · intro limit tracing machine budget actions hcreate hactions state hstate
    obtain ⟨hpositive, rfl⟩ := create_eq_ok_iff.1 hcreate
    have hP := Stack.wellFormed_invariant limit
    obtain ⟨hdistinct, hwithin⟩ := history_invariant hP hactions hP.nil state hstate
    refine ⟨hdistinct, fun m hm => ?_⟩
    -- a new machine has no limit below one, so the limit is its own maximum with zero
    have hle := hwithin m hm
    have hone := hpositive m hm
    omega
  · intro machine budget raws program hbuild state hstate
    have hP := Stack.wellFormed_invariant machine.limit
    rcases hstate with hinside | ⟨outcome, hact, rfl⟩
    · exact inside_invariant hP _ state hinside
    · exact act_run_invariant hP hbuild hact

/-- A session with a place for two cells that overflows, writes in place and pops too much, and a
    run on a machine that has no place at all and holds one name twice. -/
theorem stack_wellFormed_of_two_places :
    create (some 2) true = .ok { limit := some 2, tracing := true } ∧
    (∀ action ∈ [Action.push (some "x") 1, .push none 2, .push none 3, .push (some "x") 4, .pop 5],
      action.assignsStack = false ∧ action.assignsLimit = false) ∧
    (∀ state ∈ history { limit := some 2, tracing := true } 9
        [.push (some "x") 1, .push none 2, .push none 3, .push (some "x") 4, .pop 5],
      state.stack.DistinctNames ∧ ∀ m, some 2 = some m → (state.stack.length : Int) ≤ m) ∧
    Program.build [⟨.int 0, some (.int 7)⟩, ⟨.int 1, some (.text "x")⟩] =
      .ok [.const 7, .store 'x'] ∧
    (∀ state : Machine,
      (state ∈ inside { stack := [⟨some "x", 1⟩, ⟨some "x", 2⟩], limit := some (-1) } 9
          (.run [⟨.int 0, some (.int 7)⟩, ⟨.int 1, some (.text "x")⟩]) ∨
        ∃ outcome, act { stack := [⟨some "x", 1⟩, ⟨some "x", 2⟩], limit := some (-1) } 9
          (.run [⟨.int 0, some (.int 7)⟩, ⟨.int 1, some (.text "x")⟩]) = some outcome ∧
          outcome.machine = state) →
      state.stack.DistinctNames ∧
        ∀ m, some (-1) = some m → (state.stack.length : Int) ≤ max m 0) :=
  ⟨rfl, by decide, stack_wellFormed_throughout.1 _ _ _ _ _ rfl (by decide), rfl,
    stack_wellFormed_throughout.2 _ _ _ _ rfl⟩

end Machine

end StackVM
