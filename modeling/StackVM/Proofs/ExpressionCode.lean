import StackVM.Proofs.Block
import StackVM.Proofs.CellOrigin
import StackVM.Proofs.Expression

set_option autoImplicit false

/-! # The code of expressions

An expression compiles to code that leaves its value on top of the stack: first the right operand,
then the left one, then the operator. What the code does to a stack is its outcome
(`Expr.perform_code`), an induction over the expression that holds of every stack below: the right
operand lies under the left one while that is evaluated. `Expr.code_correct` says what a run does that
comes to the code somewhere in a program. -/

namespace StackVM

/-! ## Variables and places on a stack -/

namespace Stack

/-- The values of the variables on a stack, each from its lowest cell, as 32-bit words. -/
def valuation (s : Stack) (x : Char) : Option Int32 :=
  (s.lookup (String.singleton x)).map Int32.ofInt

/-- Whether the limit allows so many more cells. -/
def fits (limit : Option Int) (count : Nat) (s : Stack) : Bool :=
  limit.all fun (m : Int) => s.length + count ≤ max m 0

variable {limit : Option Int} {s : Stack} {m n : Nat} {value : Int} {cell : Cell}

/-- An operand on top is no variable. -/
theorem valuation_cons_operand : valuation (⟨none, value⟩ :: s) = s.valuation := by
  funext x
  rw [valuation, lookup_cons]
  simp [valuation, Cell.isNamed]

theorem fits_iff : s.fits limit n = true ↔ ∀ m, limit = some m → (s.length : Int) + n ≤ max m 0 := by
  cases limit <;> simp [fits]

theorem fits_cons : fits limit n (cell :: s) = s.fits limit (1 + n) := by
  rw [Bool.eq_iff_iff, fits_iff, fits_iff, List.length_cons]
  constructor <;> intro h k hk <;> have := h k hk <;> omega

theorem fits_max : s.fits limit (max m n) = (s.fits limit m && s.fits limit n) := by
  rw [Bool.eq_iff_iff, Bool.and_eq_true, fits_iff, fits_iff, fits_iff]
  constructor
  · intro h
    constructor <;> intro k hk <;> have := h k hk <;> omega
  · rintro ⟨hm, hn⟩ k hk
    have := hm k hk
    have := hn k hk
    omega

theorem fits_one : s.fits limit 1 = !s.isFull limit := by
  cases limit with
  | none => rfl
  | some m =>
    rw [Bool.eq_iff_iff, fits_iff, isFull_some, Bool.not_eq_true', decide_eq_false_iff_not]
    constructor
    · intro h
      have := h m rfl
      omega
    · rintro h _ ⟨⟩
      omega

theorem fits_zero_iff : s.fits limit 0 = true ↔ s.Within limit := by
  rw [fits_iff]
  rfl

/-- There is room for the cells if no limit is below their number and that of the cells there. -/
theorem fits_of_places {places : Int} (hlimit : ∀ m, limit = some m → places ≤ m)
    (hs : (s.length : Int) + n ≤ places) : s.fits limit n = true := by
  rw [fits_iff]
  intro m hm
  have := hlimit m hm
  omega

theorem fits_mono (hmn : m ≤ n) (h : s.fits limit n = true) : s.fits limit m = true := by
  rw [fits_iff] at h ⊢
  intro k hk
  have := h k hk
  omega

theorem Within.cons_of_fits (h : s.fits limit 1 = true) : Within limit (cell :: s) := by
  intro m hm
  have := fits_iff.1 h m hm
  rw [List.length_cons]
  omega

theorem result_push_operand :
    (Effect.push limit none value s).result =
      if s.fits limit 1 then .ok (⟨none, value⟩ :: s) else .error { kind := .stackOverflow } := by
  rw [fits_one]
  cases hfull : s.isFull limit with
  | true => rw [effect_push_of_isFull not_present_none hfull]; rfl
  | false => rw [effect_push_of_place not_present_none hfull]; rfl

end Stack

/-! ## What the code does to a stack -/

namespace Expr

/-- The code of an expression. The left operand comes last, so that it is on top for the operator. -/
def code : Expr → Program
  | .const value => [.const value]
  | .var x => [.load x]
  | .node op a b => b.code ++ a.code ++ [.binary op]

/-- What is on the stack after the code of an expression: its value on top of all there was, unless
    its evaluation has an error; but an overflow when there are not enough places for it. -/
def outcome (limit : Option Int) (e : Expr) (s : Stack) : Except Fault Stack :=
  if s.fits limit (e.peak s.valuation) then
    (fun value => ⟨none, value.toInt⟩ :: s) <$> e.eval s.valuation
  else .error { kind := .stackOverflow }

variable {limit : Option Int} {s : Stack} {op : BinaryOp} {a b e : Expr} {v : Int32} {fault : Fault}

theorem pushes_of_mem_code {instr : Instr} (e : Expr) (h : instr ∈ e.code) :
    instr.pushes = true := by
  induction e with
  | const value | var x =>
    rw [List.mem_singleton.1 h]
    rfl
  | node op a b iha ihb =>
    rw [code, List.mem_append, List.mem_append, List.mem_singleton] at h
    rcases h with (hb | ha) | rfl
    · exact ihb hb
    · exact iha ha
    · rfl

theorem outcome_of_eval (h : e.eval s.valuation = .ok v) :
    e.outcome limit s =
      if s.fits limit e.depth then .ok (⟨none, v.toInt⟩ :: s)
      else .error { kind := .stackOverflow } := by
  rw [outcome, h, peak_of_eval h]
  rfl

theorem outcome_of_error (h : e.eval s.valuation = .error fault) :
    e.outcome limit s =
      if s.fits limit (e.peak s.valuation) then .error fault
      else .error { kind := .stackOverflow } := by
  rw [outcome, h]
  rfl

open Program

/-- The operator at the end of the code finds both values on top. -/
theorem perform_binary {left right : Int32} (hs : Stack.Within limit (⟨none, right.toInt⟩ :: s)) :
    perform limit [.binary op] (⟨none, left.toInt⟩ :: ⟨none, right.toInt⟩ :: s) =
      (fun value => ⟨none, value.toInt⟩ :: s) <$> op.onWords left right := by
  rw [perform_singleton, Instr.effect, BinaryOp.apply_toInt]
  cases op.onWords left right with
  | error fault => rfl
  | ok value =>
    have hplace : s.fits limit 1 = true := by rw [Stack.fits_one, hs.isFull_tail]; rfl
    show (Effect.push limit none value.toInt s).result = _
    rw [Stack.result_push_operand, if_pos hplace]
    rfl

/-- **The code of an expression puts its value on top**, on any stack of 32-bit words within its
    limit; it fails with the first error of the evaluation or for want of places. -/
theorem perform_code (e : Expr) (hs : s.Within limit)
    (hwords : ∀ cell ∈ s, Word32.InRange cell.value) :
    perform limit e.code s = e.outcome limit s := by
  induction e generalizing s with
  | const value =>
    rw [code, perform_singleton, outcome_of_eval rfl]
    exact Stack.result_push_operand
  | var x =>
    rw [code, perform_singleton, Instr.effect]
    cases hx : s.lookup (String.singleton x) with
    | none =>
      have hvar : s.valuation x = none := by rw [Stack.valuation, hx]; rfl
      have hplace : s.fits limit ((var x).peak s.valuation) = true := by
        rw [peak, hvar]
        exact Stack.fits_zero_iff.2 hs
      rw [outcome, if_pos hplace, eval, hvar]
      rfl
    | some value =>
      have hword := Word32.toInt_ofInt_of_inRange (hwords _ (Stack.mem_of_lookup hx))
      have hvar : (var x).eval s.valuation = .ok (Int32.ofInt value) := by
        rw [eval_var_eq_ok_iff, Stack.valuation, hx]
        rfl
      rw [outcome_of_eval hvar, hword]
      exact Stack.result_push_operand
  | node op a b iha ihb =>
    rw [code, perform_append, perform_append, ihb hs hwords]
    cases hb : b.eval s.valuation with
    | error fault =>
      rw [outcome_of_error hb, outcome_of_error (eval_node_of_error hb), peak_node_of_error hb]
      split <;> rfl
    | ok right =>
      rw [outcome_of_eval hb, outcome, eval_node_of_ok hb, peak_node_of_ok hb, peak_of_eval hb,
        Stack.fits_max]
      cases hright : s.fits limit b.depth with
      | false => rfl
      | true =>
        -- the left operand is evaluated above the value of the right one
        have hplaced : Stack.Within limit (⟨none, right.toInt⟩ :: s) :=
          Stack.Within.cons_of_fits (Stack.fits_mono b.depth_pos hright)
        have hleft := iha hplaced
          (List.forall_mem_cons.2 ⟨Word32.inRange_toInt right, hwords⟩)
        rw [outcome, Stack.valuation_cons_operand, Stack.fits_cons] at hleft
        rw [Bool.true_and]
        show perform limit a.code (⟨none, right.toInt⟩ :: s) >>= perform limit [.binary op] = _
        rw [hleft]
        split
        · cases a.eval s.valuation with
          | error fault => rfl
          | ok left => exact perform_binary hplaced
        · rfl

/-! ## Runs through the code -/

/-- A run that comes to the code of an expression carries its outcome out. -/
theorem executes_code {before after : Program} {past : List Config} (e : Expr) (hafter : after ≠ [])
    (hreached : (before ++ e.code ++ after).Steps limit ⟨0, []⟩ past ⟨before.length, s⟩) :
    (before ++ e.code ++ after).Executes limit e.code.length ⟨before.length, s⟩
      (e.outcome limit s) := by
  have hwithin : s.Within limit := hreached.stack_invariant (Stack.within_invariant limit) rfl
  have hwords : ∀ cell ∈ s, Word32.InRange cell.value := by
    intro cell hcell
    exact (madeBy_of_visited _ hreached.mem_visited cell hcell).inRange
  have hrun : (before ++ e.code ++ after).Executes limit e.code.length ⟨before.length, s⟩
      (perform limit e.code s) :=
    executes_perform (fun _ hinstr => pushes_of_mem_code e hinstr) hafter s
  rwa [perform_code e hwithin hwords] at hrun

/-- **The code of an expression evaluates it, anywhere in a program.** Let a run come to the code with
    a stack `s`, the program going on after it. With places for the depth of the expression the run
    passes the code, leaving the value above `s`, or fails in it with the first error of the
    evaluation. With fewer places it fails: with an error of the evaluation if that comes before the
    places run out, and otherwise with an overflow. The value of a polynomial is the wrapped value on
    unbounded integers. -/
theorem code_correct {program before after : Program} {past : List Config} (e : Expr)
    (hprogram : program = before ++ e.code ++ after) (hafter : after ≠ [])
    (hreached : program.Steps limit ⟨0, []⟩ past ⟨before.length, s⟩) :
    ((∀ m, limit = some m → (s.length : Int) + e.depth ≤ m) →
      (∀ value, e.eval s.valuation = .ok value →
        program.Passes limit e.code.length ⟨before.length, s⟩
          ⟨before.length + e.code.length, ⟨none, value.toInt⟩ :: s⟩) ∧
      ∀ fault, e.eval s.valuation = .error fault →
        program.FailsWithin limit e.code.length ⟨before.length, s⟩ fault) ∧
    (∀ m, limit = some m → m < (s.length : Int) + e.depth →
      (s.fits limit (e.peak s.valuation) = true →
        ∃ fault, e.eval s.valuation = .error fault ∧
          program.FailsWithin limit e.code.length ⟨before.length, s⟩ fault) ∧
      (s.fits limit (e.peak s.valuation) = false →
        program.FailsWithin limit e.code.length ⟨before.length, s⟩ { kind := .stackOverflow })) ∧
    (e.IsPolynomial → ∀ value, e.eval s.valuation = .ok value →
      ∃ t, e.unwrapped? s.valuation = some t ∧ value.toInt = Word32.wrap t) := by
  subst hprogram
  have hrun := executes_code e hafter hreached
  refine ⟨?_, ?_, ?_⟩
  · intro hroom
    have hdepth : s.fits limit e.depth = true := by
      rw [Stack.fits_iff]
      intro m hm
      have := hroom m hm
      omega
    constructor
    · intro value hvalue
      rwa [outcome_of_eval hvalue, if_pos hdepth] at hrun
    · intro fault hfault
      rwa [outcome_of_error hfault, if_pos (Stack.fits_mono (peak_le_depth _ e) hdepth)] at hrun
  · intro m hm hfew
    have hdepth : s.fits limit e.depth = false := by
      rw [Bool.eq_false_iff, Ne, Stack.fits_iff]
      intro hfits
      have := hfits m hm
      have := e.depth_pos
      omega
    constructor
    · intro hpeak
      cases heval : e.eval s.valuation with
      | error fault =>
        rw [outcome_of_error heval, if_pos hpeak] at hrun
        exact ⟨fault, rfl, hrun⟩
      | ok value =>
        -- a value takes all the places, and there are not as many
        rw [peak_of_eval heval, hdepth] at hpeak
        cases hpeak
    · intro hpeak
      rwa [outcome, hpeak] at hrun
  · intro hpoly value hvalue
    obtain ⟨t, ht, rfl⟩ := exists_unwrapped_of_eval hpoly hvalue
    exact ⟨t, ht, (Word32.wrap_eq_toInt t).symm⟩

/-- The product of `x` and the greatest word, less the successor of `x`. -/
def wrappedDifference : Expr :=
  .node .sub (.node .mul (.var 'x') (.const 0x7fffffff)) (.node .add (.var 'x') (.const 1))

/-- A quotient by zero and a variable without value, of which the latter is evaluated first. -/
def twoErrors : Expr :=
  .node .add (.node .div (.const 1) (.const 0)) (.var 'y')

/-- Three places above the variable are enough for the difference and two are not; the variable without
    value comes to light before its expression runs out of places. -/
theorem code_correct_of_wrappedDifference :
    Steps ([.const 5, .store 'x'] ++ wrappedDifference.code ++ [.ret]) (some 4) ⟨0, []⟩
      [⟨0, []⟩, ⟨1, [⟨none, 5⟩]⟩] ⟨2, [⟨some "x", 5⟩]⟩ ∧
    Passes ([.const 5, .store 'x'] ++ wrappedDifference.code ++ [.ret]) (some 4) 7
      ⟨2, [⟨some "x", 5⟩]⟩ ⟨9, [⟨none, 2147483637⟩, ⟨some "x", 5⟩]⟩ ∧
    (∃ t, wrappedDifference.unwrapped? (Stack.valuation [⟨some "x", 5⟩]) = some t ∧
      2147483637 = Word32.wrap t) ∧
    Steps ([.const 5, .store 'x'] ++ wrappedDifference.code ++ [.ret]) (some 3) ⟨0, []⟩
      [⟨0, []⟩, ⟨1, [⟨none, 5⟩]⟩] ⟨2, [⟨some "x", 5⟩]⟩ ∧
    FailsWithin ([.const 5, .store 'x'] ++ wrappedDifference.code ++ [.ret]) (some 3) 7
      ⟨2, [⟨some "x", 5⟩]⟩ { kind := .stackOverflow } ∧
    FailsWithin ([] ++ twoErrors.code ++ [.ret]) (some 1) 5 ⟨0, []⟩
      { kind := .unknownVariable, name := some "y" } := by
  have hwide : Steps ([.const 5, .store 'x'] ++ wrappedDifference.code ++ [.ret]) (some 4) ⟨0, []⟩
      [⟨0, []⟩, ⟨1, [⟨none, 5⟩]⟩] ⟨2, [⟨some "x", 5⟩]⟩ := by decide
  have hnarrow : Steps ([.const 5, .store 'x'] ++ wrappedDifference.code ++ [.ret]) (some 3) ⟨0, []⟩
      [⟨0, []⟩, ⟨1, [⟨none, 5⟩]⟩] ⟨2, [⟨some "x", 5⟩]⟩ := by decide
  have hstart : Steps ([] ++ twoErrors.code ++ [.ret]) (some 1) ⟨0, []⟩ [] ⟨0, []⟩ := .refl
  have hvalue : wrappedDifference.eval (Stack.valuation [⟨some "x", 5⟩]) = .ok 2147483637 := rfl
  have hroom : ∀ m, some 4 = some m →
      (([⟨some "x", 5⟩] : Stack).length : Int) + wrappedDifference.depth ≤ m := by
    rintro _ ⟨⟩
    decide
  obtain ⟨hpasses, -, hwrap⟩ := code_correct wrappedDifference rfl (by decide) hwide
  obtain ⟨-, hoverflow, -⟩ := code_correct wrappedDifference rfl (by decide) hnarrow
  obtain ⟨-, herror, -⟩ := code_correct twoErrors rfl (by decide) hstart
  obtain ⟨fault, hfault, hfails⟩ := (herror 1 rfl (by decide)).1 (by decide)
  have hfirst : twoErrors.eval (Stack.valuation []) =
      .error { kind := .unknownVariable, name := some "y" } := rfl
  rw [hfirst, Except.error.injEq] at hfault
  subst hfault
  exact ⟨hwide, (hpasses hroom).1 _ hvalue,
    hwrap ⟨by decide, ⟨by decide, trivial, trivial⟩, ⟨by decide, trivial, trivial⟩⟩ _ hvalue, hnarrow,
    (hoverflow 3 rfl (by decide)).2 (by decide), hfails⟩

end Expr

end StackVM
