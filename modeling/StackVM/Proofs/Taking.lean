import StackVM.Proofs.StackInvariant

set_option autoImplicit false

/-! # Taking several cells

Cells are taken one at a time, and those taken before the stack turned out too small are not put
back. So a take always leaves what is below the cells asked for, which is nothing when there are fewer
(`Stack.pop_snd`), and it has its cells exactly if there are enough (`Stack.pop_fst`). It follows that
two takes in a row are one, also when one of them fails (`Machine.pop_pop_snd`,
`Machine.pop_add_eq_ok_iff`), and that operands pushed one by one are taken back at once
(`Machine.pushAll_of_room`). -/

namespace StackVM

namespace Stack

/-- What a take leaves, whether it finds its cells or not. -/
theorem pop_snd (count : Nat) (s : Stack) : (pop count s).2 = s.drop count := by
  induction count generalizing s with
  | zero => rfl
  | succ count ih =>
    cases s with
    | nil => rfl
    | cons cell s => exact ih s

/-- The cells that a take finds, the top first. -/
theorem pop_fst (count : Nat) (s : Stack) :
    (pop count s).1 =
      if count ≤ s.length then .ok (s.take count) else .error { kind := .stackUnderflow } := by
  induction count generalizing s with
  | zero => rfl
  | succ count ih =>
    cases s with
    | nil => rfl
    | cons cell s =>
      have hstep : (pop (count + 1) (cell :: s)).1 = (cell :: ·) <$> (pop count s).1 := rfl
      rw [hstep, ih]
      simp only [List.length_cons, Nat.add_le_add_iff_right]
      by_cases h : count ≤ s.length
      · rw [if_pos h, if_pos h]
        rfl
      · rw [if_neg h, if_neg h]
        rfl

end Stack

namespace Machine

variable {machine : Machine} {count j k : Int} {cells : List Cell} {values : List Int}

theorem pop_snd (machine : Machine) (count : Int) :
    (machine.pop count).2 = { machine with stack := machine.stack.drop count.toNat } := by
  rw [← Stack.pop_snd]
  rfl

theorem pop_fst (machine : Machine) (count : Int) :
    (machine.pop count).1 =
      if count ≤ machine.stack.length then .ok (machine.stack.take count.toNat)
      else .error { kind := .stackUnderflow } := by
  have hpop : (machine.pop count).1 = (Stack.pop count.toNat machine.stack).1 := rfl
  rw [hpop, Stack.pop_fst]
  by_cases h : count ≤ machine.stack.length
  · rw [if_pos h, if_pos (by omega)]
  · rw [if_neg h, if_neg (by omega)]

theorem pop_eq_ok_iff :
    (machine.pop count).1 = .ok cells ↔
      count ≤ machine.stack.length ∧ cells = machine.stack.take count.toNat := by
  rw [pop_fst]
  by_cases h : count ≤ machine.stack.length
  · simp [h, eq_comm]
  · simp [h]

/-- Two takes leave what one take of all their cells leaves. -/
theorem pop_pop_snd (hj : 0 ≤ j) (hk : 0 ≤ k) :
    ((machine.pop j).2.pop k).2 = (machine.pop (j + k)).2 := by
  simp only [pop_snd, List.drop_drop, Int.toNat_add hj hk]

/-- One take has its cells exactly if two have theirs, and these are the same cells. -/
theorem pop_add_eq_ok_iff (hj : 0 ≤ j) (hk : 0 ≤ k) :
    (machine.pop (j + k)).1 = .ok cells ↔
      ∃ first second, (machine.pop j).1 = .ok first ∧
        ((machine.pop j).2.pop k).1 = .ok second ∧ cells = first ++ second := by
  have hsplit : machine.stack.take (j + k).toNat =
      machine.stack.take j.toNat ++ (machine.stack.drop j.toNat).take k.toNat := by
    rw [Int.toNat_add hj hk, List.take_add]
  have hlength : (machine.stack.drop j.toNat).length = machine.stack.length - j.toNat :=
    List.length_drop
  simp only [pop_eq_ok_iff, pop_snd, hsplit, hlength]
  constructor
  · rintro ⟨hle, rfl⟩
    exact ⟨_, _, ⟨by omega, rfl⟩, ⟨by omega, rfl⟩, rfl⟩
  · rintro ⟨_, _, ⟨hfirst, rfl⟩, ⟨hsecond, rfl⟩, rfl⟩
    exact ⟨by omega, rfl⟩

/-! ## Operands pushed and taken back -/

/-- Pushes values as operands one after the other, until one finds no place. -/
def pushAll (machine : Machine) (values : List Int) : Except Fault Machine :=
  values.foldlM (fun machine value => machine.push none value) machine

theorem pushAll_cons (machine : Machine) (value : Int) (values : List Int) :
    machine.pushAll (value :: values) =
      machine.push none value >>= fun after => after.pushAll values :=
  List.foldlM_cons

theorem push_none_of_place (h : machine.stack.isFull machine.limit = false) (value : Int) :
    machine.push none value = .ok { machine with stack := ⟨none, value⟩ :: machine.stack } := by
  have happend : Stack.push machine.limit none value machine.stack =
      .ok (⟨none, value⟩ :: machine.stack) := Stack.append_eq_ok_iff.2 ⟨h, rfl⟩
  rw [push, happend]
  rfl

/-- With a place for each of them all values are pushed, the last one on top. -/
theorem pushAll_of_room
    (hroom : ∀ m, machine.limit = some m → machine.stack.length + values.length ≤ m) :
    machine.pushAll values =
      .ok { machine with
        stack := (values.reverse.map fun value => ⟨none, value⟩) ++ machine.stack } := by
  induction values generalizing machine with
  | nil => rfl
  | cons value values ih =>
    have hplace : machine.stack.isFull machine.limit = false := by
      rw [Stack.isFull_eq_false_iff]
      intro m hm
      have := hroom m hm
      rw [List.length_cons] at this
      omega
    have hrest : ∀ m, machine.limit = some m →
        ((⟨none, value⟩ :: machine.stack : Stack).length : Int) + values.length ≤ m := by
      intro m hm
      have := hroom m hm
      simp only [List.length_cons] at this ⊢
      omega
    rw [pushAll_cons, push_none_of_place hplace, List.reverse_cons, List.map_append,
      List.append_assoc]
    exact ih hrest

/-- **What taking several cells comes to.** A take of a count finds its cells exactly if there are as
    many, and then these are the topmost cells, the top first, and the others are left; a negative
    count takes none. Otherwise it underflows and leaves nothing. Two takes, neither of a negative
    count, leave what one of all their cells leaves, which finds its cells exactly if both do, the
    cells of the first and then those of the second. Operands that all have places can be pushed one
    by one; taking as many gives them back in the reverse order and the machine as it was. -/
theorem pop_laws (machine : Machine) :
    (∀ count : Int,
      ((∃ cells, (machine.pop count).1 = .ok cells) ↔ count ≤ machine.stack.length) ∧
      (count ≤ machine.stack.length → machine.pop count =
        (.ok (machine.stack.take (max count 0).toNat),
          { machine with stack := machine.stack.drop (max count 0).toNat })) ∧
      (machine.stack.length < count → machine.pop count =
        (.error { kind := .stackUnderflow }, { machine with stack := [] }))) ∧
    (∀ j k : Int, 0 ≤ j → 0 ≤ k →
      ((machine.pop j).2.pop k).2 = (machine.pop (j + k)).2 ∧
      ∀ cells, (machine.pop (j + k)).1 = .ok cells ↔
        ∃ first second, (machine.pop j).1 = .ok first ∧
          ((machine.pop j).2.pop k).1 = .ok second ∧ cells = first ++ second) ∧
    ∀ values : List Int,
      (∀ m, machine.limit = some m → machine.stack.length + values.length ≤ m) →
      ∃ after, machine.pushAll values = .ok after ∧
        after.pop values.length =
          (.ok (values.reverse.map fun value => ⟨none, value⟩), machine) := by
  refine ⟨?_, fun j k hj hk => ⟨pop_pop_snd hj hk, fun cells => pop_add_eq_ok_iff hj hk⟩, ?_⟩
  · intro count
    have hcount : (max count 0).toNat = count.toNat := by omega
    refine ⟨?_, ?_, ?_⟩
    · simp [pop_eq_ok_iff]
    · intro h
      refine Prod.ext ?_ ?_
      · rw [pop_fst, if_pos h, hcount]
      · rw [pop_snd, hcount]
    · intro h
      refine Prod.ext ?_ ?_
      · rw [pop_fst, if_neg (by omega)]
      · rw [pop_snd, List.drop_of_length_le (by omega)]
  · intro values hroom
    have hlength : (values.reverse.map fun value => (⟨none, value⟩ : Cell)).length =
        values.length := by simp
    refine ⟨_, pushAll_of_room hroom, Prod.ext ?_ ?_⟩
    · rw [pop_eq_ok_iff, Int.toNat_natCast, List.take_left' hlength]
      refine ⟨?_, rfl⟩
      rw [List.length_append, hlength]
      omega
    · rw [pop_snd, Int.toNat_natCast, List.drop_left' hlength]

/-- An operand under a variable and another operand, with places for two more cells. -/
def threeCells : Machine where
  stack := [⟨none, 3⟩, ⟨some "x", 2⟩, ⟨none, 1⟩]
  limit := some 5

/-- Four cells are too many and leave nothing, minus one are none, two are one and one, two and then
    two fail like four, and two operands fit and come back. -/
theorem pop_laws_of_threeCells :
    threeCells.pop 4 = (.error { kind := .stackUnderflow }, { limit := some 5 }) ∧
    threeCells.pop (-1) = (.ok [], threeCells) ∧
    (threeCells.pop 2).1 = .ok [⟨none, 3⟩, ⟨some "x", 2⟩] ∧
    (∃ first second, (threeCells.pop 1).1 = .ok first ∧
      ((threeCells.pop 1).2.pop 1).1 = .ok second ∧
      [⟨none, 3⟩, ⟨some "x", 2⟩] = first ++ second) ∧
    ((threeCells.pop 2).2.pop 2).2 = (threeCells.pop (2 + 2)).2 ∧
    (∀ m, threeCells.limit = some m → threeCells.stack.length + [(7 : Int), 8].length ≤ m) ∧
    ∃ after, threeCells.pushAll [7, 8] = .ok after ∧
      after.pop 2 = (.ok [⟨none, 8⟩, ⟨none, 7⟩], threeCells) := by
  obtain ⟨htake, hadd, hpush⟩ := pop_laws threeCells
  have hroom : ∀ m, threeCells.limit = some m →
      threeCells.stack.length + [(7 : Int), 8].length ≤ m := by
    rintro m ⟨⟩
    decide
  have htwo : (threeCells.pop 2).1 = .ok [⟨none, 3⟩, ⟨some "x", 2⟩] :=
    congrArg Prod.fst ((htake 2).2.1 (by decide))
  exact ⟨(htake 4).2.2 (by decide), (htake (-1)).2.1 (by decide), htwo,
    ((hadd 1 1 (by decide) (by decide)).2 _).1 htwo, (hadd 2 2 (by decide) (by decide)).1, hroom,
    hpush [7, 8] hroom⟩

end Machine

end StackVM
