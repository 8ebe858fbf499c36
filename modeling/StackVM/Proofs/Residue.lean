import Mathlib.Data.BitVec
import Mathlib.Data.Int.Bitwise
import Mathlib.Data.Int.ModEq
import StackVM.Word32

set_option autoImplicit false

/-! # Wrapping and residues

Wrapping takes an integer to the one integer in the signed 32-bit range that has its residue modulo
`2 ^ 32` (`Word32.eq_wrap_iff`). So it tells two integers apart exactly when their residues differ
(`Word32.wrap_eq_wrap_iff`), and sums, differences and products may be wrapped before as well as
after: it is the homomorphism of rings from the integers to vectors of 32 bits
(`Word32.wrap_eq_toInt_castRingHom`). On binary digits, it keeps the last 32 and takes `2 ^ 32` off a
number that is then too large (`Word32.wrap_eq_ite`). -/

namespace StackVM.Word32

variable {x y : Int}

/-! ## Congruence -/

theorem wrap_modEq (x : Int) : wrap x ≡ x [ZMOD 2 ^ 32] :=
  Int.bmod_emod

theorem wrap_eq_wrap_iff : wrap x = wrap y ↔ x ≡ y [ZMOD 2 ^ 32] := by
  constructor
  · intro h
    calc
      x ≡ wrap x [ZMOD 2 ^ 32] := (wrap_modEq x).symm
      _ = wrap y := h
      _ ≡ y [ZMOD 2 ^ 32] := wrap_modEq y
  · intro h
    have hresidue : x % (Int32.size : Int) = y % (Int32.size : Int) := h
    rw [wrap, wrap, ← Int.emod_bmod x, ← Int.emod_bmod y, hresidue]

/-- The integers in range have each residue once. -/
theorem eq_wrap_iff (x z : Int) : z = wrap x ↔ InRange z ∧ z ≡ x [ZMOD 2 ^ 32] := by
  constructor
  · rintro rfl
    exact ⟨inRange_wrap x, wrap_modEq x⟩
  · rintro ⟨hrange, hcongr⟩
    calc
      z = wrap z := (wrap_of_inRange hrange).symm
      _ = wrap x := wrap_eq_wrap_iff.2 hcongr

theorem wrap_eq_self_iff : wrap x = x ↔ InRange x := by
  constructor
  · intro h
    rw [← h]
    exact inRange_wrap x
  · exact wrap_of_inRange

/-! ## The homomorphism -/

/-- The integers have only one homomorphism of rings to vectors of 32 bits, and wrapping is that
    homomorphism, the vector being read as a signed integer. -/
theorem wrap_eq_toInt_castRingHom (x : Int) : wrap x = (Int.castRingHom (BitVec 32) x).toInt := by
  have himage : Int.castRingHom (BitVec 32) x = BitVec.ofInt 32 x := rfl
  rw [himage, BitVec.toInt_ofInt]
  rfl

theorem wrap_add_wrap (x y : Int) : wrap (wrap x + wrap y) = wrap (x + y) :=
  wrap_eq_wrap_iff.2 ((wrap_modEq x).add (wrap_modEq y))

theorem wrap_sub_wrap (x y : Int) : wrap (wrap x - wrap y) = wrap (x - y) :=
  wrap_eq_wrap_iff.2 ((wrap_modEq x).sub (wrap_modEq y))

theorem wrap_mul_wrap (x y : Int) : wrap (wrap x * wrap y) = wrap (x * y) :=
  wrap_eq_wrap_iff.2 ((wrap_modEq x).mul (wrap_modEq y))

/-! ## Binary digits -/

/-- The number that the last 32 binary digits of an integer stand for. A negative integer has ones
    without end in front. -/
def lowBits (x : Int) : Int := x.land maxIndex

theorem ldiff_two_pow_sub_one (n m : Nat) :
    Nat.ldiff (2 ^ n - 1) m = 2 ^ n - (m % 2 ^ n + 1) := by
  have hlt : m % 2 ^ n < 2 ^ n := Nat.mod_lt m (Nat.two_pow_pos n)
  refine Nat.eq_of_testBit_eq fun i => ?_
  rw [Nat.testBit_ldiff, Nat.testBit_two_pow_sub_one, Nat.testBit_two_pow_sub_succ hlt,
    Nat.testBit_mod_two_pow]
  by_cases hi : i < n <;> simp [hi]

/-- The last digits are the remainder, also below zero. -/
theorem lowBits_eq_emod (x : Int) : lowBits x = x % 2 ^ 32 := by
  cases x with
  | ofNat n => exact congrArg Nat.cast (Nat.and_two_pow_sub_one_eq_mod n 32)
  | negSucc n =>
    -- the digits of `-(n + 1)` are those of `n`, each the other way round
    have hdigits : lowBits (Int.negSucc n) = (2 ^ 32 - (n % 2 ^ 32 + 1) : Nat) :=
      congrArg Nat.cast (ldiff_two_pow_sub_one 32 n)
    rw [hdigits, Int.negSucc_emod n (by decide)]
    omega

/-- The digits read as an unsigned number, less `2 ^ 32` if that is above the signed range, are an
    integer in range with the same residue, and there is only one. -/
theorem wrap_eq_ite (x : Int) :
    wrap x = if lowBits x > maxValue then lowBits x - 2 ^ 32 else lowBits x := by
  symm
  rw [eq_wrap_iff, lowBits_eq_emod]
  have hnonneg : 0 ≤ x % 2 ^ 32 := Int.emod_nonneg x (by decide)
  have hlt : x % 2 ^ 32 < 2 ^ 32 := Int.emod_lt_of_pos x (by decide)
  have hcongr : x % 2 ^ 32 ≡ x [ZMOD 2 ^ 32] := Int.mod_modEq x _
  split
  · next hlarge =>
    constructor
    · simp only [InRange, minValue, maxValue] at hlarge ⊢
      omega
    · exact Int.sub_modulus_modEq_iff.2 hcongr
  · next hsmall =>
    refine ⟨?_, hcongr⟩
    simp only [InRange, minValue, maxValue] at hsmall ⊢
    omega

example : wrap maxValue = maxValue ∧ wrap (maxValue + 1) = minValue := by decide

/-! ## Reduction to words -/

/-- **Wrapping is the canonical homomorphism from the integers to 32-bit words.** The wrapped integer is
    the only one in the signed 32-bit range that is congruent to the given one modulo `2 ^ 32`; nothing
    changes in range, and there alone; and two integers are wrapped to one word exactly when they are
    congruent. Wrapping the operands of a sum, a difference or a product first changes nothing. The
    word is the image under the homomorphism of rings to vectors of 32 bits, and it is found by
    masking: the last 32 binary digits, less `2 ^ 32` above the greatest signed integer. -/
theorem wrap_canonical (x y : Int) :
    (∀ z, z = wrap x ↔ InRange z ∧ z ≡ x [ZMOD 2 ^ 32]) ∧
    (wrap x = x ↔ InRange x) ∧
    (wrap x = wrap y ↔ x ≡ y [ZMOD 2 ^ 32]) ∧
    wrap (wrap x + wrap y) = wrap (x + y) ∧
    wrap (wrap x - wrap y) = wrap (x - y) ∧
    wrap (wrap x * wrap y) = wrap (x * y) ∧
    wrap x = (Int.castRingHom (BitVec 32) x).toInt ∧
    wrap x = (if lowBits x > maxValue then lowBits x - 2 ^ 32 else lowBits x) :=
  ⟨eq_wrap_iff x, wrap_eq_self_iff, wrap_eq_wrap_iff, wrap_add_wrap x y, wrap_sub_wrap x y,
    wrap_mul_wrap x y, wrap_eq_toInt_castRingHom x, wrap_eq_ite x⟩

end StackVM.Word32
