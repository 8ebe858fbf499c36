import Mathlib.Algebra.Group.Nat.Defs
import StackVM.Text.Numeral

set_option autoImplicit false

/-! # Reading numerals

A numeral is read digit by digit, each new digit multiplying what was read before by the base.
Decimal and hexadecimal numerals read as the integers they are written for, whatever zeros they are
padded with, and they are written with digits and a minus sign only. -/

namespace StackVM.Text

/-- The digits, in the order of their values. -/
def digits : List Char := (List.range 16).map Nat.digitChar

/-- The value of a digit. -/
def digitValue (c : Char) : Nat := digits.idxOf c

/-- The number that digits stand for. -/
def ofDigits (base : Nat) (cs : List Char) : Nat :=
  cs.foldl (fun n c => base * n + digitValue c) 0

/-- The integer that digits stand for, negative behind a minus sign. -/
def ofSigned (base : Nat) : List Char → Int
  | '-' :: cs => -(ofDigits base cs : Int)
  | cs => ofDigits base cs

variable {base width n : Nat} {c : Char} {cs : List Char} {i : Int}

/-! ## Digits -/

theorem digitValue_digitChar (h : n < 16) : digitValue n.digitChar = n := by
  revert n
  decide

theorem digitChar_mem_digits (h : n < 16) : n.digitChar ∈ digits :=
  List.mem_map.2 ⟨n, List.mem_range.2 h, rfl⟩

theorem ofDigits_concat : ofDigits base (cs ++ [c]) = base * ofDigits base cs + digitValue c := by
  rw [ofDigits, List.foldl_append]
  rfl

/-- Zeros in front do not count. -/
theorem ofDigits_padded (count : Nat) :
    ofDigits base (List.replicate count '0' ++ cs) = ofDigits base cs := by
  induction count with
  | zero => rfl
  | succ count ih =>
    rw [List.replicate_succ, List.cons_append, ofDigits, List.foldl_cons]
    exact ih

theorem ofDigits_toDigits (hbase : 1 < base) (hdigits : base ≤ 16) (n : Nat) :
    ofDigits base (Nat.toDigits base n) = n := by
  induction n using Nat.strongRecOn with
  | ind n ih =>
    by_cases hn : n < base
    · rw [Nat.toDigits_of_lt_base hn]
      simp [ofDigits, digitValue_digitChar (Nat.lt_of_lt_of_le hn hdigits)]
    · -- the last digit is the remainder, those before it are the digits of the quotient
      have hle : base ≤ n := Nat.le_of_not_lt hn
      have hlt : n % base < 16 := Nat.lt_of_lt_of_le (Nat.mod_lt n (by omega)) hdigits
      have hquotient := ih (n / base) (Nat.div_lt_self (by omega) hbase)
      rw [Nat.toDigits_of_base_le hbase hle, ofDigits_concat, hquotient, digitValue_digitChar hlt]
      exact Nat.div_add_mod n base

theorem mem_digits_of_mem_toDigits (hbase : 1 < base) (hdigits : base ≤ 16)
    (h : c ∈ Nat.toDigits base n) : c ∈ digits := by
  induction n using Nat.strongRecOn with
  | ind n ih =>
    by_cases hn : n < base
    · rw [Nat.toDigits_of_lt_base hn, List.mem_singleton] at h
      exact h ▸ digitChar_mem_digits (Nat.lt_of_lt_of_le hn hdigits)
    · have hle : base ≤ n := Nat.le_of_not_lt hn
      rw [Nat.toDigits_of_base_le hbase hle, List.mem_append, List.mem_singleton] at h
      rcases h with hbefore | rfl
      · exact ih (n / base) (Nat.div_lt_self (by omega) hbase) hbefore
      · exact digitChar_mem_digits (Nat.lt_of_lt_of_le (Nat.mod_lt n (by omega)) hdigits)

/-! ## Hexadecimal digits of a width -/

theorem ofDigits_hexDigits (width n : Nat) : ofDigits 16 (hexDigits width n) = n := by
  rw [hexDigits, List.leftpad, ofDigits_padded, ofDigits_toDigits (by decide) (by decide)]

theorem mem_digits_of_mem_hexDigits (h : c ∈ hexDigits width n) : c ∈ digits := by
  rw [hexDigits, List.leftpad, List.mem_append, List.mem_replicate] at h
  rcases h with ⟨-, rfl⟩ | hdigit
  · decide
  · exact mem_digits_of_mem_toDigits (by decide) (by decide) hdigit

/-- A number that fits a width takes it up. -/
theorem length_hexDigits (hwidth : 0 < width) (h : n < 16 ^ width) :
    (hexDigits width n).length = width := by
  have hlength := (Nat.length_toDigits_le_iff (b := 16) (by decide) hwidth).2 h
  rw [hexDigits, List.leftpad, List.length_append, List.length_replicate]
  exact Nat.sub_add_cancel hlength

/-! ## Signed numerals -/

/-- Digits alone are no negative number. -/
theorem ofSigned_of_digits (h : ∀ c ∈ cs, c ∈ digits) : ofSigned base cs = ofDigits base cs := by
  unfold ofSigned
  split
  · exact absurd (h '-' List.mem_cons_self) (by decide)
  · rfl

theorem ofSigned_signedHex (width : Nat) (i : Int) : ofSigned 16 (signedHex width i) = i := by
  unfold signedHex
  split
  · rw [ofSigned, ofDigits_hexDigits]
    omega
  · rw [ofSigned_of_digits fun c => mem_digits_of_mem_hexDigits, ofDigits_hexDigits]
    omega

theorem ofSigned_signedDecimal (i : Int) : ofSigned 10 (signedDecimal i) = i := by
  have hread : ofDigits 10 (Nat.toDigits 10 i.natAbs) = i.natAbs :=
    ofDigits_toDigits (by decide) (by decide) _
  unfold signedDecimal
  split
  · rw [ofSigned, hread]
    omega
  · have hdigits : ∀ c ∈ Nat.toDigits 10 i.natAbs, c ∈ digits :=
      fun c => mem_digits_of_mem_toDigits (by decide) (by decide)
    rw [ofSigned_of_digits hdigits, hread]
    omega

theorem mem_of_mem_signedHex (h : c ∈ signedHex width i) : c = '-' ∨ c ∈ digits := by
  unfold signedHex at h
  split at h
  · exact (List.mem_cons.1 h).imp id mem_digits_of_mem_hexDigits
  · exact Or.inr (mem_digits_of_mem_hexDigits h)

theorem space_not_mem_signedHex (width : Nat) (i : Int) : ' ' ∉ signedHex width i :=
  fun h => absurd (mem_of_mem_signedHex h) (by decide)

theorem mem_of_mem_signedDecimal (h : c ∈ signedDecimal i) : c = '-' ∨ c ∈ digits := by
  have hdigits : c ∈ Nat.toDigits 10 i.natAbs → c ∈ digits :=
    mem_digits_of_mem_toDigits (by decide) (by decide)
  unfold signedDecimal at h
  split at h
  · exact (List.mem_cons.1 h).imp id hdigits
  · exact Or.inr (hdigits h)

end StackVM.Text
