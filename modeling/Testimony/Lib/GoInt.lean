import Mathlib.Algebra.Group.Int.Defs
import Mathlib.Algebra.Group.Nat.Defs

/-!
# `Testimony.Lib.GoInt`: the arithmetic of Go's `int`

Sums and products of 64-bit `int`s wrap around. They are what they seem to be as long as they are
in range, and in any case modulo `2 ^ 64`.
-/

set_option autoImplicit false

namespace Lib

/-- `a * b` for `int`s -/
def mulInt (a b : Int) : Int := Int.bmod (a * b) (2 ^ 64)

/-- `a + b` for `int`s -/
def addInt (a b : Int) : Int := Int.bmod (a + b) (2 ^ 64)

/-- A product in the range of `int` is the product of the numbers. -/
theorem mulInt_eq {a b : Int} (hlo : -2 ^ 63 ≤ a * b) (hhi : a * b < 2 ^ 63) : mulInt a b = a * b :=
  Int.bmod_eq_of_le_mul_two (by omega) (by omega)

/-- A sum in the range of `int` is the sum of the numbers. -/
theorem addInt_eq {a b : Int} (hlo : -2 ^ 63 ≤ a + b) (hhi : a + b < 2 ^ 63) : addInt a b = a + b :=
  Int.bmod_eq_of_le_mul_two (by omega) (by omega)

/-- A product of two 32-bit numbers that is positive as an `int` has not wrapped around. -/
theorem mulInt_of_pos {a b : Nat} (ha : a < 2 ^ 32) (hb : b < 2 ^ 32) (h : 0 < mulInt a b) :
    mulInt a b = (a * b : Nat) ∧ a * b < 2 ^ 63 := by
  have hlt : a * b < 2 ^ 32 * 2 ^ 32 := Nat.mul_lt_mul'' ha hb
  rw [mulInt, ← Int.natCast_mul] at h ⊢
  generalize a * b = n at h hlt ⊢
  simp only [Int.bmod] at h ⊢
  split at h <;> omega

end Lib
