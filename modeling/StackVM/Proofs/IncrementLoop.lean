import StackVM.Machine
import StackVM.Proofs.Assignment

set_option autoImplicit false

/-! # A counting loop

The program adds 1 to a variable as often as a count says, with another variable for the additions so
far. Its code is assignments and comparisons, so a round of the loop is one step from the stack after
`k` additions to the stack after `k + 1` (`Program.passes_round`), and by induction the run comes to
all of them (`Program.exists_steps_rounds`). The counter is what it counts, without being wrapped: it
is never greater than the count (`Machine.run_incrementLoop`). -/

namespace StackVM

namespace Program

/-- Adds 1 to the variable `v`, which begins with `start`, as often as `count` says. The variable `n`
    holds the count, `i` the additions so far. The loop is passed by when the count is 0, since its
    test stands behind its body. -/
def incrementLoop (start count : Int32) : Program :=
  [.const start, .store 'v', .const count, .store 'n', .const 0, .store 'i',
   .load 'n', .const 0, .binary .eq, .jumpIf 22,
   .load 'v', .const 1, .binary .add, .store 'v',
   .load 'i', .const 1, .binary .add, .store 'i',
   .load 'n', .load 'i', .binary .lt, .jumpIf 10,
   .load 'v', .ret]

/-- The stack after `k` of `n` additions. -/
def counted (start : Int32) (n k : Nat) : Stack :=
  [⟨some "i", k⟩, ⟨some "n", n⟩, ⟨some "v", Word32.wrap (start.toInt + k)⟩]

/-- Where the run goes on after `k` of `n` additions: to the body of the loop or behind it. -/
def afterRound (n k : Nat) : Nat := if k < n then 10 else 22

/-- The places of a run with `n` additions: those before the loop, the loop as often, and those
    behind it. -/
def incrementPath (n : Nat) : List Nat :=
  List.range 10 ++ (List.replicate n (List.range' 10 12)).flatten ++ [22, 23]

example : incrementPath 0 = [0, 1, 2, 3, 4, 5, 6, 7, 8, 9, 22, 23] := rfl

theorem length_incrementPath (n : Nat) : (incrementPath n).length = 12 * n + 12 := by
  simp [incrementPath]
  omega

/-! ## The code as assignments -/

/-- What stands before the first jump: the variables get their values, and the count is compared. -/
def countSetup (start : Int32) (n : Nat) : Program :=
  (Expr.const start).assignTo 'v' ++ (Expr.const (.ofNat n)).assignTo 'n' ++
    (Expr.const 0).assignTo 'i' ++ (Expr.node .eq (.const 0) (.var 'n')).code

/-- The body of the loop with its test, up to the jump back. -/
def countBody : Program :=
  (Expr.node .add (.const 1) (.var 'v')).assignTo 'v' ++
    (Expr.node .add (.const 1) (.var 'i')).assignTo 'i' ++
    (Expr.node .lt (.var 'i') (.var 'n')).code

variable {limit : Option Int} {start : Int32} {n k : Nat}

theorem incrementLoop_eq_setup :
    incrementLoop start (.ofNat n) =
      [] ++ countSetup start n ++ (incrementLoop start (.ofNat n)).drop 9 := rfl

theorem incrementLoop_eq_body :
    incrementLoop start (.ofNat n) =
      (incrementLoop start (.ofNat n)).take 10 ++ countBody ++
        (incrementLoop start (.ofNat n)).drop 21 := rfl

theorem incrementLoop_eq_load :
    incrementLoop start (.ofNat n) =
      (incrementLoop start (.ofNat n)).take 22 ++ (Expr.var 'v').code ++ [.ret] := rfl

theorem afterRound_lt : afterRound n k < (incrementLoop start (.ofNat n)).length := by
  show afterRound n k < 24
  rw [afterRound]
  split <;> decide

theorem pushes_of_mem_countSetup : ∀ instr ∈ countSetup start n, instr.pushes = true := by
  simp [countSetup, Expr.assignTo, Expr.code, Instr.pushes]

theorem pushes_of_mem_countBody : ∀ instr ∈ countBody, instr.pushes = true := by
  decide

theorem inRange_of_mem_counted (hn : (n : Int) ≤ Word32.maxValue) (hk : k ≤ n) :
    ∀ cell ∈ counted start n k, Word32.InRange cell.value := by
  have hcount := Word32.inRange_natCast hn
  have hcounter : Word32.InRange k := Word32.inRange_natCast (by omega)
  simp [counted, hcount, hcounter, Word32.inRange_wrap]

variable (start) (hn : (n : Int) ≤ Word32.maxValue) (hlimit : ∀ m, limit = some m → 5 ≤ m)
include hn hlimit

/-- Before the first jump all variables have their values, and the test is on top. -/
theorem perform_countSetup :
    perform limit (countSetup start n) [] =
      .ok (⟨none, BinaryOp.truth ((0 : Int) = n)⟩ :: counted start n 0) := by
  have hvalue : perform limit ((Expr.const start).assignTo 'v') [] =
      .ok [⟨some "v", start.toInt⟩] :=
    Expr.perform_assignTo (Expr.hasValue_const start) (by simp)
      (Stack.fits_of_places hlimit (by simp [Expr.depth]))
  have hcount : perform limit ((Expr.const (.ofNat n)).assignTo 'n') [⟨some "v", start.toInt⟩] =
      .ok [⟨some "n", n⟩, ⟨some "v", start.toInt⟩] := by
    rw [← Word32.toInt_ofNat_of_le hn]
    exact Expr.perform_assignTo (Expr.hasValue_const (.ofNat n)) (by simp [Word32.inRange_toInt])
      (Stack.fits_of_places hlimit (by simp [Expr.depth]))
  have hcounter : perform limit ((Expr.const 0).assignTo 'i')
      [⟨some "n", n⟩, ⟨some "v", start.toInt⟩] = .ok (counted start n 0) := by
    have hstart : Word32.wrap (start.toInt + (0 : Nat)) = start.toInt := by
      rw [Int.natCast_zero, Int.add_zero, Word32.wrap_of_inRange (Word32.inRange_toInt start)]
    rw [counted, hstart]
    exact Expr.perform_assignTo (Expr.hasValue_const 0)
      (by simp [Word32.inRange_toInt, Word32.inRange_natCast hn])
      (Stack.fits_of_places hlimit (by simp [Expr.depth]))
  have htest : perform limit (Expr.node .eq (.const 0) (.var 'n')).code (counted start n 0) =
      .ok (⟨none, BinaryOp.truth ((0 : Int) = n)⟩ :: counted start n 0) := by
    refine Expr.perform_code_of_hasValue ?_ (inRange_of_mem_counted hn (Nat.zero_le n))
      (Stack.fits_of_places hlimit (by simp [counted, Expr.depth]))
    exact Expr.hasValue_node (Expr.hasValue_const 0)
      (Expr.hasValue_var rfl (Word32.inRange_natCast hn)) rfl
  have hvariables := perform_append_of_ok (perform_append_of_ok hvalue hcount) hcounter
  exact perform_append_of_ok hvariables htest

/-- The body makes of the stack after `k` additions the stack after one more, with the test on top. The
    counter is not wrapped, since it does not exceed the count. -/
theorem perform_countBody (hk : k < n) :
    perform limit countBody (counted start n k) =
      .ok (⟨none, BinaryOp.truth (((k + 1 : Nat) : Int) < n)⟩ :: counted start n (k + 1)) := by
  have hcounter : Word32.InRange k := Word32.inRange_natCast (by omega)
  have hnext : Word32.InRange (k + 1 : Nat) := Word32.inRange_natCast (by omega)
  have hsum : perform limit ((Expr.node .add (.const 1) (.var 'v')).assignTo 'v')
      (counted start n k) = .ok [⟨some "i", k⟩, ⟨some "n", n⟩,
        ⟨some "v", Word32.wrap (start.toInt + (k + 1 : Nat))⟩] := by
    -- the sum may be wrapped after every addition or once
    rw [Int.natCast_add, ← Int.add_assoc, Int.natCast_one, Int.add_comm,
      ← Word32.wrap_add_wrap_right]
    refine Expr.perform_assignTo ?_ (inRange_of_mem_counted hn (Nat.le_of_lt hk))
      (Stack.fits_of_places hlimit (by simp [counted, Expr.depth]))
    exact Expr.hasValue_node (Expr.hasValue_const 1)
      (Expr.hasValue_var rfl (Word32.inRange_wrap _)) rfl
  have hadded : perform limit ((Expr.node .add (.const 1) (.var 'i')).assignTo 'i')
      [⟨some "i", k⟩, ⟨some "n", n⟩, ⟨some "v", Word32.wrap (start.toInt + (k + 1 : Nat))⟩] =
        .ok (counted start n (k + 1)) := by
    have hexact : BinaryOp.add.apply (1 : Int32).toInt k = .ok ((k + 1 : Nat) : Int) := by
      show Except.ok (Word32.wrap (1 + (k : Int))) = _
      rw [Int.add_comm, ← Int.natCast_succ, Word32.wrap_of_inRange hnext]
    refine Expr.perform_assignTo ?_
      (by simp [hcounter, Word32.inRange_natCast hn, Word32.inRange_wrap])
      (Stack.fits_of_places hlimit (by simp [Expr.depth]))
    exact Expr.hasValue_node (Expr.hasValue_const 1) (Expr.hasValue_var rfl hcounter) hexact
  have htest : perform limit (Expr.node .lt (.var 'i') (.var 'n')).code (counted start n (k + 1)) =
      .ok (⟨none, BinaryOp.truth (((k + 1 : Nat) : Int) < n)⟩ :: counted start n (k + 1)) := by
    refine Expr.perform_code_of_hasValue ?_ (inRange_of_mem_counted hn hk)
      (Stack.fits_of_places hlimit (by simp [counted, Expr.depth]))
    exact Expr.hasValue_node (Expr.hasValue_var rfl hnext)
      (Expr.hasValue_var rfl (Word32.inRange_natCast hn)) rfl
  exact perform_append_of_ok (perform_append_of_ok hsum hadded) htest

/-! ## The rounds -/

theorem passes_setup :
    (incrementLoop start (.ofNat n)).Passes limit 10 ⟨0, []⟩
      ⟨afterRound n 0, counted start n 0⟩ := by
  have hblock : (incrementLoop start (.ofNat n)).Executes limit 9 ⟨0, []⟩
      (perform limit (countSetup start n) []) := by
    rw [incrementLoop_eq_setup]
    exact executes_perform pushes_of_mem_countSetup (by simp [incrementLoop]) []
  rw [perform_countSetup start hn hlimit] at hblock
  have hplace : afterRound n 0 = if (0 : Int) = n then 22 else 10 := by
    rw [afterRound]
    split <;> split <;> omega
  have hin : afterRound n 0 < (incrementLoop start (.ofNat n)).length := afterRound_lt
  rw [hplace] at hin ⊢
  exact Passes.branch hblock rfl hin

/-- A round of the loop comes from the stack after `k` additions to the stack after one more. -/
theorem passes_round (hk : k < n) :
    (incrementLoop start (.ofNat n)).Passes limit 12 ⟨10, counted start n k⟩
      ⟨afterRound n (k + 1), counted start n (k + 1)⟩ := by
  have hblock : (incrementLoop start (.ofNat n)).Executes limit 11 ⟨10, counted start n k⟩
      (perform limit countBody (counted start n k)) := by
    rw [incrementLoop_eq_body]
    exact executes_perform pushes_of_mem_countBody (by simp [incrementLoop]) _
  rw [perform_countBody start hn hlimit hk] at hblock
  have hplace : afterRound n (k + 1) = if ((k + 1 : Nat) : Int) < n then 10 else 22 := by
    rw [afterRound]
    split <;> split <;> omega
  have hin : afterRound n (k + 1) < (incrementLoop start (.ofNat n)).length := afterRound_lt
  rw [hplace] at hin ⊢
  exact Passes.branch hblock rfl hin

/-- The run comes to every number of additions up to the count, through as many rounds. -/
theorem exists_steps_rounds (hk : k ≤ n) :
    ∃ past, (incrementLoop start (.ofNat n)).Steps limit ⟨0, []⟩ past
        ⟨afterRound n k, counted start n k⟩ ∧
      past.map Config.pc =
        List.range 10 ++ (List.replicate k (List.range' 10 12)).flatten := by
  induction k with
  | zero => exact passes_setup start hn hlimit
  | succ k ih =>
    obtain ⟨past, hsteps, hplaces⟩ := ih (Nat.le_of_succ_le hk)
    obtain ⟨round, hround, hroundPlaces⟩ := passes_round start hn hlimit hk
    have hbody : afterRound n k = 10 := if_pos hk
    rw [hbody] at hsteps
    refine ⟨past ++ round, hsteps.trans hround, ?_⟩
    rw [List.map_append, hplaces, hroundPlaces, List.replicate_succ', List.flatten_append,
      List.append_assoc, List.flatten_singleton]

/-- Behind the loop the value of the variable goes on top, for the return. -/
theorem passes_load_counted :
    (incrementLoop start (.ofNat n)).Passes limit 1 ⟨22, counted start n n⟩
      ⟨23, ⟨none, Word32.wrap (start.toInt + n)⟩ :: counted start n n⟩ := by
  have hblock : (incrementLoop start (.ofNat n)).Executes limit 1 ⟨22, counted start n n⟩
      (perform limit (Expr.var 'v').code (counted start n n)) := by
    rw [incrementLoop_eq_load]
    exact executes_perform (fun _ => (Expr.var 'v').pushes_of_mem_code) (by simp) _
  have hvalue : (Expr.var 'v').HasValue (counted start n n) (Word32.wrap (start.toInt + n)) :=
    Expr.hasValue_var rfl (Word32.inRange_wrap _)
  rwa [Expr.perform_code_of_hasValue hvalue (inRange_of_mem_counted hn (Nat.le_refl n))
    (Stack.fits_of_places hlimit (by simp [counted, Expr.depth]))] at hblock

/-- The run comes to the return with the value of the variable on top. -/
theorem exists_steps_ret :
    ∃ past, (incrementLoop start (.ofNat n)).Steps limit ⟨0, []⟩ past
        ⟨23, ⟨none, Word32.wrap (start.toInt + n)⟩ :: counted start n n⟩ ∧
      past.map Config.pc ++ [23] = incrementPath n := by
  obtain ⟨rounds, hrounds, hplaces⟩ := exists_steps_rounds start hn hlimit (Nat.le_refl n)
  obtain ⟨load, hload, hloadPlaces⟩ := passes_load_counted start hn hlimit
  have hbehind : afterRound n n = 22 := if_neg (Nat.lt_irrefl n)
  rw [hbehind] at hrounds
  refine ⟨rounds ++ load, hrounds.trans hload, ?_⟩
  rw [List.map_append, hplaces, hloadPlaces, List.append_assoc]
  rfl

end Program

open Program

/-- **The counting loop is correct.** With a count that is not negative the run of the program takes
    twelve instructions for each addition and twelve around them, whatever the machine held before, if
    there are places for five cells. The result is the start increased by the count and wrapped once.
    After `k` additions the run is at the body of the loop, or behind it when these are all, and the
    counter is `k`. -/
theorem Machine.run_incrementLoop (machine : Machine) (start : Int32) {n : Nat}
    (hn : (n : Int) ≤ Word32.maxValue) (hlimit : ∀ m, machine.limit = some m → 5 ≤ m) :
    (∀ budget, machine.run (.incrementLoop start (.ofNat n)) budget =
      if 12 * n + 12 ≤ budget then
        some (⟨.result (Word32.wrap (start.toInt + n)), ⟨23, counted start n n⟩, incrementPath n⟩,
          { machine with ip := 23, stack := counted start n n })
      else none) ∧
    (incrementPath n).length = 12 * n + 12 ∧
    ∀ k ≤ n,
      ((incrementLoop start (.ofNat n)).visited machine.limit (12 * n + 12) ⟨0, []⟩)[12 * k + 10]? =
        some ⟨if k < n then 10 else 22, counted start n k⟩ := by
  refine ⟨?_, length_incrementPath n, ?_⟩
  · intro budget
    obtain ⟨past, hsteps, hplaces⟩ := exists_steps_ret start hn hlimit
    have hlength : past.length + 1 = 12 * n + 12 := by
      rw [← length_incrementPath, ← hplaces]
      simp
    have hrun := hsteps.runFrom_of_ended rfl (show 23 < 24 by decide) budget
    rw [List.map_append, List.map_singleton, hplaces] at hrun
    rw [Machine.run, Program.run, hrun, ← hlength]
    by_cases henough : past.length < budget
    · rw [if_pos henough, if_pos (Nat.succ_le_of_lt henough)]
      rfl
    · rw [if_neg henough, if_neg (mt Nat.lt_of_succ_le henough)]
      rfl
  · intro k hk
    obtain ⟨past, hsteps, hplaces⟩ := exists_steps_rounds start hn hlimit hk
    have hlength : past.length = 12 * k + 10 := by
      rw [← List.length_map Config.pc, hplaces]
      simp
      omega
    rw [← hlength]
    exact hsteps.getElem?_visited (by omega)

/-- Three additions to a start 1 short of the greatest word, on a machine that has been used before and
    has just the places that the loop needs. -/
theorem Machine.run_incrementLoop_of_wrappingStart :
    ((3 : Nat) : Int) ≤ Word32.maxValue ∧ (∀ m, (some 5 : Option Int) = some m → 5 ≤ m) ∧
    run { ip := 7, stack := [⟨none, 1⟩], limit := some 5 } (.incrementLoop 2147483646 3) 48 =
      some (⟨.result (-2147483647), ⟨23, [⟨some "i", 3⟩, ⟨some "n", 3⟩, ⟨some "v", -2147483647⟩]⟩,
          incrementPath 3⟩,
        { ip := 23, stack := [⟨some "i", 3⟩, ⟨some "n", 3⟩, ⟨some "v", -2147483647⟩],
          limit := some 5 }) ∧
    ((incrementLoop 2147483646 3).visited (some 5) 48 ⟨0, []⟩)[46]? =
      some ⟨22, [⟨some "i", 3⟩, ⟨some "n", 3⟩, ⟨some "v", -2147483647⟩]⟩ := by
  have hcount : ((3 : Nat) : Int) ≤ Word32.maxValue := by decide
  have hlimit : ∀ m, (some 5 : Option Int) = some m → 5 ≤ m := by
    intro m hm
    exact Int.le_of_eq (Option.some.inj hm)
  obtain ⟨hrun, -, hcounter⟩ := run_incrementLoop
    { ip := 7, stack := [⟨none, 1⟩], limit := some 5 } 2147483646 hcount hlimit
  exact ⟨hcount, hlimit, hrun 48, hcounter 3 (Nat.le_refl 3)⟩

end StackVM
