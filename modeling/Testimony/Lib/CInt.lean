import Mathlib.Data.UInt

/-!
# `Testimony.Lib.CInt`: C's integer types

The same 32 bits are an `unsigned int` on one side of a call and an `int` on the other. A number
passed in a narrower type keeps its remainder, and two numbers packed into one word can be told
apart again.
-/

set_option autoImplicit false

namespace Lib

/-- The value of a word as an `int`. -/
theorem toInt_toInt32 (x : UInt32) : x.toInt32.toInt = Int.bmod x.toNat (2 ^ 32) :=
  BitVec.toInt_eq_toNat_bmod x.toBitVec

/-- A word is positive as an `int` when its top bit is clear and it is not zero. -/
theorem toInt32_pos {x : UInt32} : 0 < x.toInt32 ↔ 0 < x.toNat ∧ x.toNat < 2 ^ 31 := by
  have hx := x.toNat_lt
  rw [Int32.lt_iff_toInt_lt, toInt_toInt32, Int.bmod_def]
  simp only [Int32.toInt_zero]
  split <;> omega

/-- A number stored in an `unsigned int` by way of an `int`. -/
theorem toNat_toUInt32_ofInt (x : Int) : (Int32.ofInt x).toUInt32.toNat = (x % 2 ^ 32).toNat :=
  BitVec.toNat_ofInt x

/-- A number stored in an `unsigned int`. -/
theorem toNat_uint32_ofInt (x : Int) : (UInt32.ofInt x).toNat = (x % 2 ^ 32).toNat := by
  unfold UInt32.ofInt
  rw [UInt32.toNat_ofNat_of_lt']
  have hlt := Int.emod_lt_of_pos x (show (0 : Int) < 2 ^ 32 by decide)
  show (x % 2 ^ 32).toNat < 4294967296
  omega

/-- The same for the narrower types. -/
theorem toNat_uint16_ofInt (x : Int) : (UInt16.ofInt x).toNat = (x % 2 ^ 16).toNat := by
  unfold UInt16.ofInt
  rw [UInt16.toNat_ofNat_of_lt']
  have hlt := Int.emod_lt_of_pos x (show (0 : Int) < 2 ^ 16 by decide)
  show (x % 2 ^ 16).toNat < 65536
  omega

/-- A conversion to `uint8` keeps the lowest eight bits. -/
theorem toNat_uint8_ofInt (x : Int) : (UInt8.ofInt x).toNat = (x % 2 ^ 8).toNat := by
  unfold UInt8.ofInt
  rw [UInt8.toNat_ofNat_of_lt']
  have hlt := Int.emod_lt_of_pos x (show (0 : Int) < 2 ^ 8 by decide)
  show (x % 2 ^ 8).toNat < 256
  omega

/-- An unsigned number comes back from an `int`. -/
theorem uint32_ofInt_toNat (x : UInt32) : UInt32.ofInt x.toNat = x :=
  UInt32.toNat_inj.mp (by rw [toNat_uint32_ofInt]; have := x.toNat_lt; omega)

/-- A `uint16` survives the way through a wider integer. -/
theorem uint16_ofInt_toNat (x : UInt16) : UInt16.ofInt x.toNat = x :=
  UInt16.toNat_inj.mp (by rw [toNat_uint16_ofInt]; have := x.toNat_lt; omega)

/-- A `uint8` survives the way through a wider integer. -/
theorem uint8_ofInt_toNat (x : UInt8) : UInt8.ofInt x.toNat = x :=
  UInt8.toNat_inj.mp (by rw [toNat_uint8_ofInt]; have := x.toNat_lt; omega)

/-- The product of two `unsigned int`s fits a `size_t`. -/
theorem toNat_mul_toUInt64 (x y : UInt32) :
    (x.toUInt64 * y.toUInt64).toNat = x.toNat * y.toNat := by
  have hx := x.toNat_lt
  have hy := y.toNat_lt
  have hmul : x.toNat * y.toNat ≤ (2 ^ 32 - 1) * (2 ^ 32 - 1) :=
    Nat.mul_le_mul (by omega) (by omega)
  rw [UInt64.toNat_mul, UInt32.toNat_toUInt64, UInt32.toNat_toUInt64]
  exact Nat.mod_eq_of_lt (by omega)

/-- The product of two `int`s, passed as a `size_t`: sign and all. -/
theorem toNat_intProduct (x y : Int32) : (x * y).toInt64.toUInt64.toNat =
    (Int.bmod (x.toUInt32.toNat * y.toUInt32.toNat : Nat) (2 ^ 32) % 2 ^ 64).toNat := by
  have hext : ((x.toBitVec * y.toBitVec).signExtend 64).toInt =
      Int.bmod (x.toUInt32.toNat * y.toUInt32.toNat : Nat) (2 ^ 32) := by
    rw [BitVec.toInt_signExtend_of_le (by decide), BitVec.toInt_eq_toNat_bmod, BitVec.toNat_mul,
      Int.natCast_emod, Int.emod_bmod]
    rfl
  have hnat := BitVec.toNat_ofInt (n := 64) ((x.toBitVec * y.toBitVec).signExtend 64).toInt
  rw [BitVec.ofInt_toInt] at hnat
  rw [← hext]
  exact hnat

/-- That is the product of the two as `size_t`s just below `2 ^ 31`. -/
theorem intProduct_eq_iff (x y : Int32) :
    (x * y).toInt64.toUInt64 = x.toUInt32.toUInt64 * y.toUInt32.toUInt64 ↔
      x.toUInt32.toNat * y.toUInt32.toNat < 2 ^ 31 := by
  have hx := x.toUInt32.toNat_lt
  have hy := y.toUInt32.toNat_lt
  have hmul : x.toUInt32.toNat * y.toUInt32.toNat ≤ (2 ^ 32 - 1) * (2 ^ 32 - 1) :=
    Nat.mul_le_mul (by omega) (by omega)
  rw [← UInt64.toNat_inj, toNat_intProduct, toNat_mul_toUInt64, Int.bmod_def]
  generalize x.toUInt32.toNat * y.toUInt32.toNat = n at hmul ⊢
  split <;> omega

/-- The low half of a word packed from two numbers is the first of them. -/
theorem setWidth_pack (x y : BitVec 32) :
    ((x &&& 0xFFFF#32) ||| (y <<< 16)).setWidth 16 = x.setWidth 16 := by
  have hmask : 0xFFFF#32 = (BitVec.allOnes 16).setWidth 32 := by decide
  rw [hmask]
  ext i hi
  simp only [BitVec.getElem_setWidth, BitVec.getLsbD_or, BitVec.getLsbD_and,
    BitVec.getLsbD_setWidth, BitVec.getLsbD_allOnes, BitVec.getLsbD_shiftLeft]
  -- The shifted number has no bit below the sixteenth.
  simp [hi]
  omega

/-- Narrowing in two steps. -/
theorem setWidth_ofInt (x : Int) : (BitVec.ofInt 32 x).setWidth 16 = BitVec.ofInt 16 x := by
  apply BitVec.eq_of_toNat_eq
  simp only [BitVec.toNat_setWidth, BitVec.toNat_ofInt]
  omega

/-- Two numbers agree in 16 bits when they differ by a multiple of `2 ^ 16`. -/
theorem ofInt16_inj {x y : Int} : BitVec.ofInt 16 x = BitVec.ofInt 16 y ↔ 65536 ∣ x - y := by
  rw [← BitVec.toNat_inj]
  simp only [BitVec.toNat_ofInt]
  omega

end Lib
