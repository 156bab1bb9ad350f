import Mathlib.Data.Int.Basic
import Mathlib.Data.List.Nodup
import Mathlib.Data.List.Perm.Subperm

/-!
# `Testimony.Lib.FreeNumbers`: the free numbers from a point on

A loop that counts up from a number until it meets one that is not in use (`search`), and the
free numbers in a range, in order (`free`). `search_eq` joins them: the loop stops at the first
free number, and the free numbers behind it are those the next search has to choose from.
`search_isSome` bounds the number of rounds by the numbers in use.
-/

set_option autoImplicit false

namespace Lib

/-- `n` numbers in a row, beginning with `lo`. -/
def upFrom (lo : Int) : Nat → List Int
  | 0 => []
  | n + 1 => lo :: upFrom (lo + 1) n

/-- The numbers among them that are not in use. -/
def free (used : List Int) (lo : Int) (n : Nat) : List Int := (upFrom lo n).filter (· ∉ used)

/-- Count up from `id` to a number that is not in use, in at most as many rounds as there is
fuel. -/
def search (used : List Int) : Nat → Int → Option Int
  | 0, _ => none
  | rounds + 1, id => if id ∈ used then search used rounds (id + 1) else some id

/-- The list has as many numbers as it is asked for. -/
theorem length_upFrom (lo : Int) (n : Nat) : (upFrom lo n).length = n := by
  induction n generalizing lo with
  | zero => rfl
  | succ n ih => rw [upFrom, List.length_cons, ih]

/-- The numbers of the list are those of a half-open interval. -/
theorem mem_upFrom {lo m : Int} {n : Nat} : m ∈ upFrom lo n ↔ lo ≤ m ∧ m < lo + n := by
  induction n generalizing lo with
  | zero =>
      simp only [upFrom, List.not_mem_nil, false_iff]
      omega
  | succ n ih =>
      rw [upFrom, List.mem_cons, ih]
      omega

/-- The numbers stand in ascending order. -/
theorem sorted_upFrom (lo : Int) (n : Nat) : (upFrom lo n).Pairwise (· < ·) := by
  induction n generalizing lo with
  | zero => exact List.Pairwise.nil
  | succ n ih =>
      refine List.Pairwise.cons (fun m hm => ?_) (ih (lo + 1))
      have := (mem_upFrom.mp hm).1
      omega

/-- The first number of the range is left out if it is in use. -/
theorem free_succ (used : List Int) (lo : Int) (n : Nat) : free used lo (n + 1) =
    if lo ∈ used then free used (lo + 1) n else lo :: free used (lo + 1) n := by
  by_cases hlo : lo ∈ used <;> simp [free, upFrom, hlo]

/-- Only the numbers in use are missing. -/
theorem le_length_free (used : List Int) (lo : Int) (n : Nat) :
    n ≤ (free used lo n).length + used.length := by
  have hnodup : ((upFrom lo n).filter (· ∈ used)).Nodup :=
    ((sorted_upFrom lo n).imp fun h => Int.ne_of_lt h).filter _
  have hsub : (upFrom lo n).filter (· ∈ used) ⊆ used := by
    intro m hm
    simpa using (List.mem_filter.mp hm).2
  have hle := (hnodup.subperm hsub).length_le
  have hsplit := List.length_eq_length_filter_add (l := upFrom lo n) fun m => decide (m ∈ used)
  rw [length_upFrom] at hsplit
  have hfree : free used lo n = (upFrom lo n).filter fun m => !decide (m ∈ used) := by
    simp [free]
  rw [hfree]
  omega

/-- More rounds do not change what is found. -/
theorem search_mono {used : List Int} {m : Int} {rounds rounds' : Nat} (hle : rounds ≤ rounds')
    {id : Int} (h : search used rounds id = some m) : search used rounds' id = some m := by
  induction rounds generalizing rounds' id with
  | zero => cases h
  | succ rounds ih =>
      obtain ⟨rounds', rfl⟩ := Nat.exists_eq_succ_of_ne_zero (Nat.ne_of_gt (by omega : 0 < rounds'))
      simp only [search] at h ⊢
      split
      · rename_i hid
        rw [if_pos hid] at h
        exact ih (Nat.le_of_succ_le_succ hle) h
      · rename_i hid
        rwa [if_neg hid] at h

/-- The search finds the first free number of a range, and the others stay for later. -/
theorem search_of_free {used : List Int} {m : Int} {rest : List Int} {n : Nat} {id : Int}
    (h : free used id n = m :: rest) :
    search used n id = some m ∧ ∃ n', rest = free used (m + 1) n' := by
  induction n generalizing id with
  | zero => cases h
  | succ n ih =>
      rw [free_succ] at h
      simp only [search]
      split
      · rename_i hid
        rw [if_pos hid] at h
        exact ih h
      · rename_i hid
        rw [if_neg hid] at h
        obtain ⟨rfl, rfl⟩ := List.cons.inj h
        exact ⟨rfl, n, rfl⟩

/-- One round more than there are numbers in use is enough. -/
theorem search_isSome (used : List Int) (id : Int) :
    ∃ m, search used (used.length + 1) id = some m := by
  have hlen := le_length_free used id (used.length + 1)
  cases hfree : free used id (used.length + 1) with
  | nil =>
      rw [hfree, List.length_nil] at hlen
      omega
  | cons m rest => exact ⟨m, (search_of_free hfree).1⟩

/-- With that many rounds the search gives the first free number of any range that has one. -/
theorem search_eq {used : List Int} {m : Int} {rest : List Int} {n : Nat} {id : Int}
    (h : free used id n = m :: rest) :
    search used (used.length + 1) id = some m ∧ ∃ n', rest = free used (m + 1) n' := by
  obtain ⟨hm, hrest⟩ := search_of_free h
  obtain ⟨m', hm'⟩ := search_isSome used id
  -- Both searches find something, so they agree where both have rounds enough.
  have h₁ := search_mono (Nat.le_max_left n (used.length + 1)) hm
  have h₂ := search_mono (Nat.le_max_right n (used.length + 1)) hm'
  rw [h₁] at h₂
  exact ⟨hm'.trans h₂.symm, hrest⟩

end Lib
