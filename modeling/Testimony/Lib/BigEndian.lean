import Mathlib.Data.Nat.Bitwise
import Mathlib.Data.UInt

/-!
# `Testimony.Lib.BigEndian`: big-endian 32-bit words

`putUint32` and `uint32` are `binary.BigEndian.PutUint32` and `binary.BigEndian.Uint32` of
the Go library: four bytes, most significant first. `uint32` reads a byte list of any
length modulo `2 ^ 32`, so it also describes the shift-and-add loop `foldl_shift` that C
code writes by hand.

The masks that split a word come with the arithmetic they stand for: testing the top bit
compares with a power of two, shifting right divides, masking takes a remainder.
-/

set_option autoImplicit false

namespace Lib.BigEndian

/-- The number a byte list spells in base 256, most significant byte first. -/
def value (bs : List UInt8) : Nat := bs.foldl (fun acc b => acc * 256 + b.toNat) 0

/-- The word a byte list spells. -/
def uint32 (bs : List UInt8) : UInt32 := UInt32.ofNat (value bs)

/-- The four bytes of a word. -/
def putUint32 (x : UInt32) : List UInt8 :=
  [(x >>> 24).toUInt8, (x >>> 16).toUInt8, (x >>> 8).toUInt8, x.toUInt8]

/-- A 32-bit number takes four bytes. -/
@[simp] theorem length_putUint32 (x : UInt32) : (putUint32 x).length = 4 := rfl

/-- Reading back what was written. -/
@[simp] theorem uint32_putUint32 (x : UInt32) : uint32 (putUint32 x) = x := by
  have hx := x.toNat_lt
  rw [← UInt32.toNat_inj]
  simp [uint32, value, putUint32, Nat.shiftRight_eq_div_pow]
  omega

/-- Writing back what was read. -/
theorem putUint32_uint32 {bs : List UInt8} (h : bs.length = 4) : putUint32 (uint32 bs) = bs := by
  obtain ⟨a, b, c, d, rfl⟩ := List.length_eq_four.mp h
  have ha := a.toNat_lt
  have hb := b.toNat_lt
  have hc := c.toNat_lt
  have hd := d.toNat_lt
  have hvalue : (uint32 [a, b, c, d]).toNat =
      ((a.toNat * 256 + b.toNat) * 256 + c.toNat) * 256 + d.toNat := by
    simp [uint32, value]
    omega
  simp only [putUint32, List.cons.injEq, ← UInt8.toNat_inj, and_true]
  simp [Nat.shiftRight_eq_div_pow, hvalue]
  omega

/-- Shift the accumulator up by a byte and add the next one. On 32-bit words this loop is
`uint32`, whatever the number of bytes. -/
theorem foldl_shift (bs : List UInt8) :
    bs.foldl (fun (out : UInt32) b => (out <<< 8) + b.toUInt32) 0 = uint32 bs := by
  have key : ∀ (bs : List UInt8) (out : UInt32) (acc : Nat), out.toNat = acc % 2 ^ 32 →
      (bs.foldl (fun (out : UInt32) b => (out <<< 8) + b.toUInt32) out).toNat
        = (bs.foldl (fun acc b => acc * 256 + b.toNat) acc) % 2 ^ 32 := by
    intro bs
    induction bs with
    | nil => intro out acc h; exact h
    | cons b bs ih =>
        intro out acc h
        rw [List.foldl_cons, List.foldl_cons]
        apply ih
        simp [UInt32.toNat_add, UInt32.toNat_shiftLeft, Nat.shiftLeft_eq, h]
  rw [← UInt32.toNat_inj, key bs 0 0 rfl]
  simp [uint32, value]

/-! ### Masks -/

/-- The top bit of an `n + 1`-bit number is clear exactly below `2 ^ n`. -/
theorem and_two_pow_eq_zero_iff {x n : Nat} (hx : x < 2 ^ (n + 1)) :
    x &&& 2 ^ n = 0 ↔ x < 2 ^ n := by
  rw [Nat.and_two_pow, Nat.testBit_eq_decide_div_mod_eq]
  have hpos := Nat.two_pow_pos n
  by_cases hb : x < 2 ^ n
  · simp [Nat.div_eq_of_lt hb, hb]
  · have hdiv : x / 2 ^ n = 1 := by
      rw [Nat.div_eq_iff hpos]
      rw [Nat.pow_succ] at hx
      omega
    simp [hdiv, hb]

/-- The top bit of a 32-bit number is clear exactly in the lower half of the range. -/
theorem and_top_eq_zero (x : UInt32) : x &&& 0x80000000 = 0 ↔ x.toNat < 2 ^ 31 := by
  rw [← UInt32.toNat_inj, UInt32.toNat_and]
  exact and_two_pow_eq_zero_iff x.toNat_lt

/-- The top bit of a 16-bit number is clear exactly in the lower half of the range. -/
theorem and_top16_eq_zero (x : UInt16) : x &&& 0x8000 = 0 ↔ x.toNat < 2 ^ 15 := by
  rw [← UInt16.toNat_inj, UInt16.toNat_and]
  exact and_two_pow_eq_zero_iff x.toNat_lt

/-- A shift by sixteen bits leaves the upper half of the word. -/
theorem toNat_shiftRight16 (x : UInt32) : (x >>> 16).toNat = x.toNat / 2 ^ 16 := by
  rw [UInt32.toNat_shiftRight]
  exact Nat.shiftRight_eq_div_pow x.toNat 16

/-- A mask of sixteen bits leaves the lower half of the word. -/
theorem toNat_and16 (x : UInt32) : (x &&& 0xFFFF).toNat = x.toNat % 2 ^ 16 := by
  rw [UInt32.toNat_and]
  exact Nat.and_two_pow_sub_one_eq_mod x.toNat 16

end Lib.BigEndian
