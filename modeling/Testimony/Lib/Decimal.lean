import Mathlib.Data.Nat.Basic
import Mathlib.Data.UInt

/-!
# `Testimony.Lib.Decimal`: decimal numbers as bytes

`decimal` prints a number, and `parseInt` reads one: an optional sign and at least one digit, of any
size. `parseInt_decimal` says that what was printed is read back, and `isNumeral_of_parseInt` that
nothing but signs and digits is read at all.
-/

set_option autoImplicit false

namespace Lib

/-- The value of a digit. -/
def digit (b : UInt8) : Option Nat :=
  if 48 ≤ b.toNat ∧ b.toNat ≤ 57 then some (b.toNat - 48) else none

/-- The value of the digits behind `n`. -/
def parseDigits : Nat → List UInt8 → Option Nat
  | n, [] => some n
  | n, b :: bs => (digit b).bind fun d => parseDigits (10 * n + d) bs

/-- A number without a sign. -/
def parseNat (bs : List UInt8) : Option Nat := if bs = [] then none else parseDigits 0 bs

/-- A number with a sign or without one. -/
def parseInt : List UInt8 → Option Int
  | [] => none
  | b :: bs =>
      if b.toNat = 45 then (parseNat bs).map fun n : Nat => -(n : Int)
      else if b.toNat = 43 then (parseNat bs).map fun n : Nat => (n : Int)
      else (parseNat (b :: bs)).map fun n : Nat => (n : Int)

/-- The digits of a number. -/
def decimal (n : Nat) : List UInt8 := (Nat.toDigits 10 n).map fun c => UInt8.ofNat c.toNat

/-- A sign or a digit. -/
def IsNumeral (b : UInt8) : Prop := b.toNat = 43 ∨ b.toNat = 45 ∨ 48 ≤ b.toNat ∧ b.toNat ≤ 57

/-! ### Printing and reading -/

/-- The character of a digit fits in a byte, which is one of the codes from 48 to 57. -/
theorem toNat_ofNat_digit {c : Char} (hc : c.isDigit) :
    (UInt8.ofNat c.toNat).toNat = c.toNat ∧ 48 ≤ c.toNat ∧ c.toNat ≤ 57 := by
  obtain ⟨hlo, hhi⟩ := Char.isDigit_iff_toNat.mp hc
  have hlo : 48 ≤ c.toNat := hlo
  have hhi : c.toNat ≤ 57 := hhi
  exact ⟨UInt8.toNat_ofNat_of_lt' (show c.toNat < 256 by omega), hlo, hhi⟩

/-- Reading digits is the library's `Nat.ofDigitChars`. -/
theorem parseDigits_map {cs : List Char} (hcs : ∀ c ∈ cs, c.isDigit) (n : Nat) :
    parseDigits n (cs.map fun c => UInt8.ofNat c.toNat) = some (Nat.ofDigitChars 10 cs n) := by
  induction cs generalizing n with
  | nil => rfl
  | cons c cs ih =>
      obtain ⟨hc, hcs⟩ := List.forall_mem_cons.mp hcs
      obtain ⟨heq, hrange⟩ := toNat_ofNat_digit hc
      rw [List.map_cons, parseDigits, digit, heq, if_pos hrange, Option.bind_some, ih hcs,
        Nat.ofDigitChars_cons]
      rfl

/-- A number is written with digits only. -/
theorem isDigit_of_mem {n : Nat} {c : Char} (hc : c ∈ Nat.toDigits 10 n) : c.isDigit :=
  Nat.isDigit_of_mem_toDigits (by decide) (by decide) hc

/-- What is printed is read back. -/
theorem parseInt_decimal (n : Nat) : parseInt (decimal n) = some (n : Int) := by
  have hall : ∀ c ∈ Nat.toDigits 10 n, c.isDigit := fun c hc => isDigit_of_mem hc
  have hparse : parseNat (decimal n) = some n := by
    rw [parseNat, if_neg (by simp [decimal]), decimal, parseDigits_map hall,
      Nat.ofDigitChars_ten_toDigits]
  -- The first digit is no sign.
  cases hdigits : Nat.toDigits 10 n with
  | nil => exact absurd hdigits Nat.toDigits_ne_nil
  | cons c cs =>
      have hdecimal : decimal n = UInt8.ofNat c.toNat :: cs.map fun c => UInt8.ofNat c.toNat := by
        rw [decimal, hdigits, List.map_cons]
      obtain ⟨heq, hlo, -⟩ := toNat_ofNat_digit (hall c (hdigits ▸ List.mem_cons_self ..))
      rw [hdecimal] at hparse ⊢
      rw [parseInt, heq, if_neg (by omega), if_neg (by omega), hparse]
      rfl

/-- A number below `10 ^ k` takes at most `k` digits. -/
theorem length_decimal_le {n k : Nat} (hk : 0 < k) (h : n < 10 ^ k) : (decimal n).length ≤ k := by
  rw [decimal, List.length_map]
  exact (Nat.length_toDigits_le_iff (by decide) hk).mpr h

/-! ### What is read -/

/-- Only digits are accepted in a number. -/
theorem digits_of_parseDigits {bs : List UInt8} {n m : Nat} (h : parseDigits n bs = some m) :
    ∀ b ∈ bs, 48 ≤ b.toNat ∧ b.toNat ≤ 57 := by
  induction bs generalizing n with
  | nil => simp
  | cons b bs ih =>
      obtain ⟨d, hd, hrest⟩ := Option.bind_eq_some_iff.mp h
      rw [digit] at hd
      split at hd
      · exact List.forall_mem_cons.mpr ⟨‹_›, ih hrest⟩
      · cases hd

/-- A text that is accepted as a number has only numerals in it. -/
theorem numerals_of_parseNat {bs : List UInt8} {m : Nat} (h : parseNat bs = some m) :
    ∀ b ∈ bs, IsNumeral b := by
  rw [parseNat] at h
  split at h
  · cases h
  · exact fun b hb => .inr (.inr (digits_of_parseDigits h b hb))

/-- A number consists of signs and digits. -/
theorem isNumeral_of_parseInt {bs : List UInt8} {i : Int} (h : parseInt bs = some i) :
    bs ≠ [] ∧ ∀ b ∈ bs, IsNumeral b := by
  cases bs with
  | nil => cases h
  | cons b bs =>
      refine ⟨List.cons_ne_nil b bs, ?_⟩
      rw [parseInt] at h
      split at h
      · rename_i hminus
        obtain ⟨n, hn, -⟩ := Option.map_eq_some_iff.mp h
        exact List.forall_mem_cons.mpr ⟨.inr (.inl hminus), numerals_of_parseNat hn⟩
      · split at h
        · rename_i hplus
          obtain ⟨n, hn, -⟩ := Option.map_eq_some_iff.mp h
          exact List.forall_mem_cons.mpr ⟨.inl hplus, numerals_of_parseNat hn⟩
        · obtain ⟨n, hn, -⟩ := Option.map_eq_some_iff.mp h
          exact numerals_of_parseNat hn

end Lib
