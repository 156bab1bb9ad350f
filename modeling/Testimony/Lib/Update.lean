import Mathlib.Algebra.BigOperators.Group.Finset.Basic
import Mathlib.Algebra.Order.BigOperators.Group.Finset

/-!
# `Testimony.Lib.Update`: sums over a family that changes in one place

A system of many parties keeps a family of local states, and a step changes one of them. A
quantity that is summed over the parties changes by what that party contributes.
-/

set_option autoImplicit false

namespace Lib

variable {ι α : Type}

/-- Changing one entry of a family changes a sum over the family by that entry. -/
theorem sum_update [DecidableEq ι] {t : Finset ι} {c : ι} (hc : c ∈ t) (f : ι → α) (x : α)
    (g : ι → α → Nat) :
    ∑ i ∈ t, g i (Function.update f c x i) + g c (f c) = ∑ i ∈ t, g i (f i) + g c x := by
  have hnew := Finset.add_sum_erase t (fun i => g i (Function.update f c x i)) hc
  have hold := Finset.add_sum_erase t (fun i => g i (f i)) hc
  have hrest : ∑ i ∈ t.erase c, g i (Function.update f c x i) = ∑ i ∈ t.erase c, g i (f i) :=
    Finset.sum_congr rfl fun i hi => by
      rw [Function.update_of_ne (Finset.ne_of_mem_erase hi)]
  rw [hrest, Function.update_self] at hnew
  omega

/-- The contribution of one entry is a part of the sum. -/
theorem le_sum {t : Finset ι} {c : ι} (hc : c ∈ t) (f : ι → α) (g : ι → α → Nat) :
    g c (f c) ≤ ∑ i ∈ t, g i (f i) :=
  Finset.single_le_sum (f := fun i => g i (f i)) (fun _ _ => Nat.zero_le _) hc

end Lib
