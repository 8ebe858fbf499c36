import StackVM.Proofs.WellFormedStack

set_option autoImplicit false

/-! # Variables on the stack

Reading and writing a variable, cell by cell. Writing in place changes what reading the variable
finds and nothing else (`Stack.lookup_assign`). With distinct names a variable is its one cell, and
reading finds it (`Stack.lookup_eq_some_iff`). -/

namespace StackVM

namespace Stack

variable {x y : String} {value : Int} {cell : Cell} {s : Stack}

theorem isNamed_iff : cell.isNamed x = true ↔ cell.name = some x := by simp [Cell.isNamed]

theorem holds_cons : holds x (cell :: s) = (cell.isNamed x || s.holds x) := rfl

theorem assign_cons : assign x value (cell :: s) = cell.assign x value :: s.assign x value := rfl

theorem holds_eq_false_iff : s.holds x = false ↔ ∀ cell ∈ s, cell.name ≠ some x := by
  simp [holds, Cell.isNamed]

theorem lookup_nil : lookup x [] = none := rfl

/-- A variable is read below the top if it can be. -/
theorem lookup_cons :
    lookup x (cell :: s) =
      (s.lookup x).or (if cell.isNamed x then some cell.value else none) := by
  simp only [lookup, List.reverse_cons, List.find?_append, Option.map_or, List.find?_singleton]
  cases cell.isNamed x <;> rfl

theorem lookup_eq_none_iff : s.lookup x = none ↔ s.holds x = false := by
  induction s with
  | nil => simp [lookup_nil, holds]
  | cons cell s ih =>
    rw [lookup_cons, holds_cons, Option.or_eq_none_iff, ih]
    cases cell.isNamed x <;> simp

/-- Writing a variable that is not on the stack changes nothing. -/
theorem assign_of_not_holds (h : s.holds x = false) : s.assign x value = s := by
  induction s with
  | nil => rfl
  | cons cell s ih =>
    rw [holds_cons, Bool.or_eq_false_iff] at h
    rw [assign_cons, ih h.2, Cell.assign, h.1]
    rfl

theorem isNamed_assign : (cell.assign x value).isNamed y = cell.isNamed y := by
  simp only [Cell.isNamed, Cell.name_assign]

/-- Reading after writing a variable in place finds the value written, and any other variable as it
    was. -/
theorem lookup_assign :
    (s.assign x value).lookup y = if y = x ∧ s.holds x = true then some value else s.lookup y := by
  induction s with
  | nil => simp [assign, lookup_nil, holds]
  | cons cell s ih =>
    rw [assign_cons, lookup_cons, lookup_cons, holds_cons, ih, isNamed_assign]
    by_cases hyx : y = x
    · subst hyx
      -- the top cell is what is read only if nothing below it belongs to the variable
      cases hnamed : cell.isNamed y with
      | false => cases holds y s <;> simp
      | true =>
        cases hheld : holds y s with
        | true => simp
        | false => simp [lookup_eq_none_iff.2 hheld, Cell.assign, hnamed]
    · cases hnamed : cell.isNamed y with
      | false => simp [hyx]
      | true =>
        have hother : cell.isNamed x = false := by
          rw [isNamed_iff] at hnamed
          simpa [Cell.isNamed, hnamed] using hyx
        simp [hyx, Cell.assign, hother]

/-- With distinct names reading a variable finds its one cell. -/
theorem lookup_eq_some_iff (h : s.DistinctNames) :
    s.lookup x = some value ↔ ⟨some x, value⟩ ∈ s := by
  induction s with
  | nil => simp [lookup_nil]
  | cons cell s ih =>
    obtain ⟨hfresh, hs⟩ := distinctNames_cons_iff.1 h
    rw [lookup_cons, List.mem_cons, Option.or_eq_some_iff, ih hs, or_comm]
    cases hnamed : cell.isNamed x with
    | true =>
      have hname := isNamed_iff.1 hnamed
      have habsent := lookup_eq_none_iff.2 (hfresh x hname)
      obtain ⟨name, held⟩ := cell
      simp only at hname
      subst hname
      simp [habsent, eq_comm]
    | false =>
      have hne : ⟨some x, value⟩ ≠ cell := by
        rintro rfl
        simp [Cell.isNamed] at hnamed
      simp [hne]

end Stack

end StackVM
