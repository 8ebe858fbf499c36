import StackVM.Proofs.Variables

set_option autoImplicit false

/-! # Writing to the stack

A push that names a variable writes the cells of the variable where they are, and needs a place only
when there are none. It leaves the names of the cells alone, so the last of two writes of one variable
is the one that counts, and writes of two variables do not see each other as long as one of them is
made in place (`Machine.pushesCommute_of_holds`). When neither is, both put a cell on top and the order
shows. None of this depends on the names of the cells being distinct, or on the stack being within its
limit. -/

namespace StackVM

/-! ## Writing in place -/

namespace Cell

variable {x y : String} {v w : Int} {cell : Cell}

theorem assign_eq :
    cell.assign x v = ⟨cell.name, if cell.name = some x then v else cell.value⟩ := by
  by_cases hx : cell.name = some x <;> simp [assign, isNamed, hx]

theorem assign_of_name (h : cell.name = some x) : cell.assign x v = ⟨some x, v⟩ := by
  rw [assign_eq, if_pos h, h]

theorem assign_of_name_ne (h : cell.name ≠ some x) : cell.assign x v = cell := by
  rw [assign_eq, if_neg h]

theorem assign_assign : (cell.assign x v).assign x w = cell.assign x w := by
  by_cases hx : cell.name = some x
  · rw [assign_of_name hx, assign_of_name hx, assign_of_name rfl]
  · rw [assign_of_name_ne hx, assign_of_name_ne hx]

theorem assign_comm (hne : x ≠ y) : (cell.assign x v).assign y w = (cell.assign y w).assign x v := by
  by_cases hx : cell.name = some x
  · -- the cell cannot belong to both
    have hy : cell.name ≠ some y := by simpa [hx] using hne
    have hy' : (some x : Option String) ≠ some y := by simpa using hne
    rw [assign_of_name hx, assign_of_name_ne hy, assign_of_name hx, assign_of_name_ne hy']
  · have hx' : (cell.assign y w).name ≠ some x := by rwa [name_assign]
    rw [assign_of_name_ne hx, assign_of_name_ne hx']

end Cell

namespace Stack

variable {limit : Option Int} {x y : String} {v w : Int} {s : Stack}

theorem holds_assign : (s.assign x v).holds y = s.holds y := by
  induction s with
  | nil => rfl
  | cons cell s ih => rw [assign_cons, holds_cons, holds_cons, isNamed_assign, ih]

theorem isFull_assign : (s.assign x v).isFull limit = s.isFull limit := by
  cases limit with
  | none => rfl
  | some m => rw [isFull_some, isFull_some, length_assign]

theorem assign_assign : (s.assign x v).assign x w = s.assign x w := by
  simp only [assign, List.map_map]
  exact List.map_congr_left fun cell _ => Cell.assign_assign

theorem assign_comm (hne : x ≠ y) : (s.assign x v).assign y w = (s.assign y w).assign x v := by
  simp only [assign, List.map_map]
  exact List.map_congr_left fun cell _ => Cell.assign_comm hne

/-- A cell of another variable on top is not written. -/
theorem assign_cons_of_ne (hne : x ≠ y) :
    assign x v (⟨some y, w⟩ :: s) = ⟨some y, w⟩ :: s.assign x v := by
  have hname : (some y : Option String) ≠ some x := by simpa using hne.symm
  rw [assign_cons, Cell.assign_of_name_ne hname]

theorem getElem?_assign (i : Nat) : (s.assign x v)[i]? = s[i]?.map (·.assign x v) :=
  List.getElem?_map ..

theorem not_present_of_not_holds (h : s.holds x = false) : ¬ Present (some x) s := by
  rw [present_some_iff, h]
  exact Bool.false_ne_true

end Stack

/-! ## Pushes of a machine -/

namespace Machine

/-- What comes of a push: its reply and the machine after it. -/
def pushed (machine : Machine) (name : Option String) (value : Int) : Outcome :=
  match machine.push name value with
  | .ok after => { reply := .done, machine := after }
  | .error fault => { reply := .fault fault, machine }

variable {machine : Machine} {x y : String} {v w : Int}

theorem act_push (budget : Nat) (name : Option String) (value : Int) :
    machine.act budget (.push name value) = some (machine.pushed name value) := by
  simp only [act, pushed]
  cases machine.push name value <;> rfl

theorem pushed_of_holds (h : machine.stack.holds x = true) :
    machine.pushed (some x) v =
      { reply := .done, machine := { machine with stack := machine.stack.assign x v } } := by
  simp only [pushed, push, Stack.push_of_holds h]
  rfl

theorem pushed_of_place (h : machine.stack.holds x = false)
    (hplace : machine.stack.isFull machine.limit = false) :
    machine.pushed (some x) v =
      { reply := .done, machine := { machine with stack := ⟨some x, v⟩ :: machine.stack } } := by
  simp only [pushed, push, Stack.push_of_not_present (Stack.not_present_of_not_holds h),
    Stack.append_eq_ok_iff.2 ⟨hplace, rfl⟩]
  rfl

theorem pushed_of_isFull (h : machine.stack.holds x = false)
    (hfull : machine.stack.isFull machine.limit = true) :
    machine.pushed (some x) v = { reply := .fault { kind := .stackOverflow }, machine } := by
  simp only [pushed, push, Stack.push_of_not_present (Stack.not_present_of_not_holds h),
    Stack.append_eq_error_iff.2 ⟨hfull, rfl⟩]
  rfl

/-- A push fails for want of a place only, and a variable on the stack needs none. -/
theorem pushed_reply_eq_fault_iff :
    (machine.pushed (some x) v).reply = .fault { kind := .stackOverflow } ↔
      machine.stack.holds x = false ∧ machine.stack.isFull machine.limit = true := by
  cases hx : machine.stack.holds x with
  | true => simp [pushed_of_holds hx]
  | false =>
    cases hfull : machine.stack.isFull machine.limit with
    | true => simp [pushed_of_isFull hx hfull]
    | false => simp [pushed_of_place hx hfull]

/-- The second of two writes of a variable does what it would have done alone. -/
theorem pushed_pushed :
    (machine.pushed (some x) v).machine.pushed (some x) w = machine.pushed (some x) w := by
  cases hx : machine.stack.holds x with
  | true =>
    have hx' : (machine.stack.assign x v).holds x = true := by rwa [Stack.holds_assign]
    rw [pushed_of_holds hx, pushed_of_holds hx', pushed_of_holds hx, Stack.assign_assign]
  | false =>
    cases hfull : machine.stack.isFull machine.limit with
    | true => rw [pushed_of_isFull hx hfull]
    | false =>
      -- the first write puts the cell that the second finds
      have hx' : Stack.holds x (⟨some x, v⟩ :: machine.stack) = true := by
        simp [Stack.holds_cons, Cell.isNamed]
      rw [pushed_of_place hx hfull, pushed_of_holds hx', pushed_of_place hx hfull,
        Stack.assign_cons, Cell.assign_of_name rfl, Stack.assign_of_not_holds hx]

/-- The pushes of two values come to the same in both orders: each has the same reply, and they leave
    the same machine. -/
def PushesCommute (machine : Machine) (name₁ name₂ : Option String) (v w : Int) : Prop :=
  ((machine.pushed name₁ v).machine.pushed name₂ w).machine =
      ((machine.pushed name₂ w).machine.pushed name₁ v).machine ∧
    (machine.pushed name₁ v).reply = ((machine.pushed name₂ w).machine.pushed name₁ v).reply ∧
    (machine.pushed name₂ w).reply = ((machine.pushed name₁ v).machine.pushed name₂ w).reply

theorem PushesCommute.symm {name₁ name₂ : Option String}
    (h : machine.PushesCommute name₁ name₂ v w) : machine.PushesCommute name₂ name₁ w v :=
  ⟨h.1.symm, h.2.2, h.2.1⟩

/-- Writing a variable in place neither helps nor hinders the writing of another one, which may need
    a new cell. -/
theorem pushesCommute_of_holds (hne : x ≠ y) (hx : machine.stack.holds x = true) :
    machine.PushesCommute (some x) (some y) v w := by
  have hwritten : (machine.stack.assign x v).holds y = machine.stack.holds y := Stack.holds_assign
  have hroom : (machine.stack.assign x v).isFull machine.limit =
      machine.stack.isFull machine.limit := Stack.isFull_assign
  unfold PushesCommute
  rw [pushed_of_holds hx]
  cases hy : machine.stack.holds y with
  | true =>
    have hx' : (machine.stack.assign y w).holds x = true := by rwa [Stack.holds_assign]
    rw [pushed_of_holds (hwritten.trans hy), pushed_of_holds hy, pushed_of_holds hx',
      Stack.assign_comm hne]
    exact ⟨rfl, rfl, rfl⟩
  | false =>
    cases hfull : machine.stack.isFull machine.limit with
    | true =>
      rw [pushed_of_isFull (hwritten.trans hy) (hroom.trans hfull), pushed_of_isFull hy hfull,
        pushed_of_holds hx]
      exact ⟨rfl, rfl, rfl⟩
    | false =>
      have hx' : Stack.holds x (⟨some y, w⟩ :: machine.stack) = true := by
        rw [Stack.holds_cons, hx, Bool.or_true]
      rw [pushed_of_place (hwritten.trans hy) (hroom.trans hfull), pushed_of_place hy hfull,
        pushed_of_holds hx', Stack.assign_cons_of_ne hne]
      exact ⟨rfl, rfl, rfl⟩

/-- Two new variables show the order in which they were pushed. -/
example : ((pushed {} (some "x") 1).machine.pushed (some "y") 2).machine ≠
    ((pushed {} (some "y") 2).machine.pushed (some "x") 1).machine := by decide

/-- **How writes of variables compose**, on any stack and under any limit. A push of a variable always
    comes to an end. It overflows exactly if no cell belongs to the variable and the stack has as many
    cells as the limit or more, and then changes nothing. A variable on the stack is written in place:
    every cell keeps its name, and just the cells of the variable get the value. Any other is put on
    top. Of two writes of one variable the second does what it would have done alone. Writes of two
    variables, one of them on the stack, come to the same in both orders. -/
theorem push_writes (machine : Machine) (x y : String) (v w : Int) :
    (∀ budget, machine.act budget (.push (some x) v) = some (machine.pushed (some x) v)) ∧
    ((machine.pushed (some x) v).reply = .fault { kind := .stackOverflow } ↔
      some x ∉ machine.stack.map Cell.name ∧
        ∃ m, machine.limit = some m ∧ m ≤ machine.stack.length) ∧
    ((machine.pushed (some x) v).reply = .fault { kind := .stackOverflow } →
      (machine.pushed (some x) v).machine = machine) ∧
    (some x ∈ machine.stack.map Cell.name →
      (machine.pushed (some x) v).reply = .done ∧
      ∃ t : Stack, (machine.pushed (some x) v).machine = { machine with stack := t } ∧
        t.length = machine.stack.length ∧
        ∀ (i : Nat) (cell : Cell), machine.stack[i]? = some cell →
          t[i]? = some ⟨cell.name, if cell.name = some x then v else cell.value⟩) ∧
    (some x ∉ machine.stack.map Cell.name →
      (∀ m, machine.limit = some m → machine.stack.length < m) →
      (machine.pushed (some x) v).reply = .done ∧
      (machine.pushed (some x) v).machine =
        { machine with stack := ⟨some x, v⟩ :: machine.stack }) ∧
    (machine.pushed (some x) v).machine.pushed (some x) w = machine.pushed (some x) w ∧
    (x ≠ y → some x ∈ machine.stack.map Cell.name ∨ some y ∈ machine.stack.map Cell.name →
      machine.PushesCommute (some x) (some y) v w) := by
  have habsent : some x ∉ machine.stack.map Cell.name ↔ machine.stack.holds x = false := by
    rw [← Stack.holds_eq_true_iff, Bool.not_eq_true]
  refine ⟨fun budget => act_push budget _ _, ?_, ?_, ?_, ?_, pushed_pushed, ?_⟩
  · rw [pushed_reply_eq_fault_iff, habsent, Stack.isFull_eq_true_iff]
  · intro hfault
    obtain ⟨hx, hfull⟩ := pushed_reply_eq_fault_iff.1 hfault
    rw [pushed_of_isFull hx hfull]
  · intro hx
    rw [pushed_of_holds (Stack.holds_eq_true_iff.2 hx)]
    refine ⟨rfl, _, rfl, Stack.length_assign .., ?_⟩
    intro i cell hcell
    rw [Stack.getElem?_assign, hcell, Option.map_some, Cell.assign_eq]
  · intro hx hroom
    rw [pushed_of_place (habsent.1 hx) (Stack.isFull_eq_false_iff.2 hroom)]
    exact ⟨rfl, rfl⟩
  · rintro hne (hx | hy)
    · exact pushesCommute_of_holds hne (Stack.holds_eq_true_iff.2 hx)
    · exact (pushesCommute_of_holds hne.symm (Stack.holds_eq_true_iff.2 hy)).symm

/-- A machine with more cells than its limit allows, two of them of one variable. -/
def overfull : Machine where
  stack := [⟨some "x", 3⟩, ⟨none, 2⟩, ⟨some "x", 1⟩]
  limit := some 2

/-- Both cells of the variable are written, another variable finds no place before or after, and an
    empty stack has one for it. -/
theorem push_writes_of_overfull :
    (overfull.pushed (some "y") 8).reply = .fault { kind := .stackOverflow } ∧
    (overfull.pushed (some "y") 8).machine = overfull ∧
    some "x" ∈ overfull.stack.map Cell.name ∧
    (∃ t : Stack, (overfull.pushed (some "x") 7).machine = { overfull with stack := t } ∧
      t[0]? = some ⟨some "x", 7⟩ ∧ t[1]? = some ⟨none, 2⟩ ∧ t[2]? = some ⟨some "x", 7⟩) ∧
    "x" ≠ "y" ∧ overfull.PushesCommute (some "x") (some "y") 7 8 ∧
    some "y" ∉ ([] : Stack).map Cell.name ∧
    (pushed { limit := some 1 } (some "y") 8).machine =
      { stack := [⟨some "y", 8⟩], limit := some 1 } := by
  have hx : some "x" ∈ overfull.stack.map Cell.name := by decide
  obtain ⟨-, -, -, hwritten, -, -, hcommute⟩ := push_writes overfull "x" "y" 7 8
  obtain ⟨-, hfault, hkept, -⟩ := push_writes overfull "y" "x" 8 7
  obtain ⟨-, -, -, -, hplaced, -⟩ := push_writes { limit := some 1 } "y" "x" 8 7
  have hoverflow := hfault.2 ⟨by decide, 2, rfl, by decide⟩
  obtain ⟨-, t, ht, -, hcells⟩ := hwritten hx
  have hroom : ∀ m, some (1 : Int) = some m → (([] : Stack).length : Int) < m := by
    rintro m ⟨⟩
    decide
  exact ⟨hoverflow, hkept hoverflow, hx, ⟨t, ht, hcells 0 _ rfl, hcells 1 _ rfl, hcells 2 _ rfl⟩,
    by decide, hcommute (by decide) (Or.inl hx), by decide, (hplaced (by decide) hroom).2⟩

end Machine

end StackVM
