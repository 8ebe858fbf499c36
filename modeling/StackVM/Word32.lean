set_option autoImplicit false

/-! # 32-bit words

Values are computed on unbounded integers and brought back into the signed 32-bit range by `wrap`,
which keeps the residue modulo `2 ^ 32`. Jump targets are unsigned 32-bit indices. -/

namespace StackVM.Word32

/-- The least signed 32-bit integer. -/
def minValue : Int := -0x80000000

/-- The greatest signed 32-bit integer. -/
def maxValue : Int := 0x7fffffff

/-- The greatest unsigned 32-bit index. -/
def maxIndex : Int := 0xffffffff

/-- The signed 32-bit integer with the same residue modulo `2 ^ 32`. -/
def wrap (x : Int) : Int := x.bmod Int32.size

theorem wrap_eq_toInt (x : Int) : wrap x = (Int32.ofInt x).toInt :=
  Int32.toInt_ofInt.symm

/-- An integer in the signed 32-bit range. -/
def InRange (x : Int) : Prop := minValue ≤ x ∧ x ≤ maxValue

instance (x : Int) : Decidable (InRange x) :=
  inferInstanceAs (Decidable (minValue ≤ x ∧ x ≤ maxValue))

/-- An integer in the unsigned 32-bit range. -/
def IsIndex (x : Int) : Prop := 0 ≤ x ∧ x ≤ maxIndex

instance (x : Int) : Decidable (IsIndex x) :=
  inferInstanceAs (Decidable (0 ≤ x ∧ x ≤ maxIndex))

theorem inRange_toInt (v : Int32) : InRange v.toInt := by
  have h₁ := v.le_toInt
  have h₂ := v.toInt_lt
  simp only [InRange, minValue, maxValue]
  omega

theorem isIndex_toNat (t : UInt32) : IsIndex t.toNat := by
  have h := t.toNat_lt
  simp only [IsIndex, maxIndex]
  omega

theorem inRange_wrap (x : Int) : InRange (wrap x) := by
  rw [wrap_eq_toInt]
  exact inRange_toInt (Int32.ofInt x)

theorem toInt_ofInt_of_inRange {x : Int} (h : InRange x) : (Int32.ofInt x).toInt = x := by
  simp only [InRange, minValue, maxValue] at h
  exact Int32.toInt_ofInt_of_le (by omega) (by omega)

/-- Wrapping changes nothing in range. -/
theorem wrap_of_inRange {x : Int} (h : InRange x) : wrap x = x := by
  rw [wrap_eq_toInt, toInt_ofInt_of_inRange h]

/-- A summand may be wrapped before the sum is. -/
theorem wrap_add_wrap_right (x y : Int) : wrap (x + wrap y) = wrap (x + y) :=
  Int.add_bmod_bmod

theorem inRange_natCast {n : Nat} (h : (n : Int) ≤ maxValue) : InRange n := by
  simp only [InRange, minValue]
  omega

theorem toInt_ofNat_of_le {n : Nat} (h : (n : Int) ≤ maxValue) : (Int32.ofNat n).toInt = n := by
  simp only [maxValue] at h
  exact Int32.toInt_ofNat_of_lt (by omega)

theorem toNat_ofNat_of_isIndex {x : Int} (h : IsIndex x) :
    ((UInt32.ofNat x.toNat).toNat : Int) = x := by
  simp only [IsIndex, maxIndex] at h
  have : x.toNat < UInt32.size := by simp only [UInt32.size]; omega
  rw [UInt32.toNat_ofNat_of_lt' this]
  omega

theorem toNat_ofNat_natCast {n : Nat} (h : IsIndex n) : (UInt32.ofNat n).toNat = n :=
  Int.ofNat.inj (toNat_ofNat_of_isIndex h)

end StackVM.Word32
