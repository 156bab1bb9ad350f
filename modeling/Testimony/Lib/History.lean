import Mathlib.Data.List.Basic
import Mathlib.Data.List.Induction

/-!
# `Testimony.Lib.History`: properties of a growing event log

A run leaves a log of events, oldest first, and every step appends to it. Four notions are
enough for the ordering results: `AtEach P`, a property of each event and of the log before
it, `Rotates n`, the log of a process that goes through `n` phases in a fixed order,
`after p`, the part of the log that follows the first event of a kind, and `LastAt`, the place of
the last event like a given one. Each comes with the lemmas for appending, which is the only thing
a step does.
-/

set_option autoImplicit false

namespace Lib

variable {α : Type}

/-- `P` holds of every event of the log together with the events before it. -/
def AtEach (P : List α → α → Prop) (log : List α) : Prop :=
  ∀ before e after, log = before ++ e :: after → P before e

/-- There is nothing to check in an empty history. -/
theorem atEach_nil (P : List α → α → Prop) : AtEach P [] := by
  intro before e after h
  simp at h

/-- Appending an event asks for `P` at that event only. -/
theorem atEach_append_singleton {P : List α → α → Prop} {log : List α} {e : α}
    (hlog : AtEach P log) (he : P log e) : AtEach P (log ++ [e]) := by
  intro before x after h
  rcases List.eq_nil_or_concat after with rfl | ⟨rest, y, rfl⟩
  · obtain ⟨rfl, hx⟩ := List.append_inj' h rfl
    cases hx
    exact he
  · have h' : log ++ [e] = (before ++ x :: rest) ++ [y] := by simpa using h
    obtain ⟨rfl, -⟩ := List.append_inj' h' rfl
    exact hlog before x rest rfl

/-- Appending events that are none of `P`'s business. -/
theorem atEach_append_of_forall {P : List α → α → Prop} {log es : List α}
    (hlog : AtEach P log) (hes : ∀ e ∈ es, ∀ before, P before e) : AtEach P (log ++ es) := by
  induction es generalizing log with
  | nil => rwa [List.append_nil]
  | cons e es ih =>
      have hstep := atEach_append_singleton hlog (hes e List.mem_cons_self log)
      have hrest := ih hstep fun x hx => hes x (List.mem_cons_of_mem e hx)
      rwa [List.append_assoc] at hrest

/-- The list counts `0, 1, …, n - 1, 0, 1, …` from its first entry on. -/
def Rotates (n : Nat) (l : List Nat) : Prop :=
  ∀ i x, l[i]? = some x → x = i % n

/-- The empty list counts round from zero. -/
theorem rotates_nil (n : Nat) : Rotates n [] := by
  intro i x h
  simp at h

/-- Appending the next phase keeps the rotation. -/
theorem rotates_append_singleton {n : Nat} {l : List Nat} {x : Nat} (hl : Rotates n l)
    (hx : x = l.length % n) : Rotates n (l ++ [x]) := by
  intro i y h
  rcases Nat.lt_trichotomy i l.length with hi | hi | hi
  · rw [List.getElem?_append_left hi] at h
    exact hl i y h
  · subst hi
    rw [List.getElem?_append_right (Nat.le_refl _)] at h
    simp only [Nat.sub_self, List.getElem?_cons_zero, Option.some.injEq] at h
    rw [← h, hx]
  · rw [List.getElem?_eq_none (by simp; omega)] at h
    cases h

/-- The part of a rotation that begins at some entry counts on from that entry. -/
theorem Rotates.suffix {n : Nat} {l pre rest : List Nat} {j : Nat} (hl : Rotates n l)
    (h : l = pre ++ j :: rest) (i x : Nat) (hi : (j :: rest)[i]? = some x) :
    x = (j + i) % n := by
  subst h
  have hj := hl pre.length j (by simp)
  have hx := hl (pre.length + i) x (by
    rw [List.getElem?_append_right (Nat.le_add_right _ _), Nat.add_sub_cancel_left]
    exact hi)
  rw [hx, hj, Nat.mod_add_mod]

/-- The shorter one of two rotations is a part of the longer one. -/
theorem Rotates.le_of_length_le {n : Nat} {l l' : List Nat} (hl : Rotates n l)
    (hl' : Rotates n l') (hle : l.length ≤ l'.length) : l <+: l' := by
  refine List.prefix_iff_getElem?.mpr fun i hi => ?_
  have hi' : i < l'.length := Nat.lt_of_lt_of_le hi hle
  rw [List.getElem?_eq_getElem hi', hl i _ (List.getElem?_eq_getElem hi),
    hl' i _ (List.getElem?_eq_getElem hi')]

/-- What counts round up to its last entry does so before it, and the last entry is the next
number. -/
theorem Rotates.of_append_singleton {n : Nat} {l : List Nat} {x : Nat} (h : Rotates n (l ++ [x])) :
    Rotates n l ∧ x = l.length % n := by
  refine ⟨fun i y hi => h i y ?_, h l.length x (by simp)⟩
  obtain ⟨hlt, -⟩ := List.getElem?_eq_some_iff.mp hi
  rw [List.getElem?_append_left hlt, hi]

/-- Where two phases take turns, the first one comes half of the time, and is one ahead at most. -/
theorem Rotates.count_two {l : List Nat} (h : Rotates 2 l) :
    l.count 0 = (l.length + 1) / 2 ∧ l.count 1 = l.length / 2 := by
  induction l using List.reverseRecOn with
  | nil => exact ⟨rfl, rfl⟩
  | append_singleton l x ih =>
      obtain ⟨hl, hx⟩ := h.of_append_singleton
      obtain ⟨h0, h1⟩ := ih hl
      rw [List.count_append, List.count_append, h0, h1, List.length_append, List.length_singleton,
        List.count_singleton, List.count_singleton]
      rcases Nat.mod_two_eq_zero_or_one l.length with hmod | hmod <;> rw [hmod] at hx <;>
        subst hx <;> simp <;> omega

/-- The part of the log after the first event that satisfies `p`. -/
def after (p : α → Bool) : List α → List α
  | [] => []
  | e :: log => if p e then log else after p log

/-- Past the first event, what is appended to the log is appended to its last part. -/
theorem after_append {p : α → Bool} {log : List α} {e : α} (he : e ∈ log) (hp : p e = true)
    (es : List α) : after p (log ++ es) = after p log ++ es := by
  induction log with
  | nil => cases he
  | cons x log ih =>
      by_cases hx : p x = true
      · simp [after, hx]
      · have hne : e ≠ x := fun h => hx (h ▸ hp)
        have hmem : e ∈ log := (List.mem_cons.mp he).resolve_left hne
        simp [after, hx, ih hmem]

/-- Before the first event there is no last part. -/
theorem after_append_of_forall {p : α → Bool} {log : List α} (h : ∀ e ∈ log, p e = false)
    (es : List α) : after p (log ++ es) = after p es := by
  induction log with
  | nil => rfl
  | cons x log ih =>
      have hx := h x List.mem_cons_self
      simp [after, hx, ih fun e he => h e (List.mem_cons_of_mem x he)]

/-- What comes after an event is the end of the history. -/
theorem after_suffix (p : α → Bool) (log : List α) : after p log <:+ log := by
  induction log with
  | nil => exact List.suffix_refl []
  | cons x log ih =>
      unfold after
      split
      · exact List.suffix_cons x log
      · exact ih.trans (List.suffix_cons x log)

/-- The entry `i` of the list is `x`, and it is the last one that is. -/
def LastAt (l : List α) (i : Nat) (x : α) : Prop :=
  l[i]? = some x ∧ ∀ j, i < j → l[j]? ≠ some x

/-- Appending other entries keeps the place of the last one. -/
theorem LastAt.append {l l' : List α} {i : Nat} {x : α} (h : LastAt l i x) (hx : x ∉ l') :
    LastAt (l ++ l') i x := by
  obtain ⟨hi, hlast⟩ := h
  obtain ⟨hlt, -⟩ := List.getElem?_eq_some_iff.mp hi
  refine ⟨by rw [List.getElem?_append_left hlt, hi], fun j hj hjx => ?_⟩
  by_cases hjl : j < l.length
  · rw [List.getElem?_append_left hjl] at hjx
    exact hlast j hj hjx
  · rw [List.getElem?_append_right (Nat.not_lt.mp hjl)] at hjx
    exact hx (List.mem_of_getElem? hjx)

/-- Other entries in front move it. -/
theorem LastAt.append_left {l : List α} {i : Nat} {x : α} (h : LastAt l i x) (pre : List α) :
    LastAt (pre ++ l) (pre.length + i) x := by
  refine ⟨?_, fun j hj hjx => h.2 (j - pre.length) (by omega) ?_⟩
  · rw [List.getElem?_append_right (Nat.le_add_right ..), Nat.add_sub_cancel_left, h.1]
  · rwa [List.getElem?_append_right (by omega)] at hjx

/-- In a longer list with no more entries like it, the last one is in the same place. -/
theorem LastAt.of_prefix [DecidableEq α] {l l' : List α} {i : Nat} {x : α} (h : LastAt l i x)
    (hle : l <+: l') (hcount : l'.count x ≤ l.count x) : LastAt l' i x := by
  obtain ⟨tail, rfl⟩ := hle
  rw [List.count_append] at hcount
  exact h.append (List.count_eq_zero.mp (by omega))

/-- The last entry of a list occurs last at the end. -/
theorem lastAt_append_singleton (l : List α) (x : α) : LastAt (l ++ [x]) l.length x :=
  ⟨by simp, fun j hj hjx => by rw [List.getElem?_eq_none (by simp; omega)] at hjx; cases hjx⟩

/-- The last occurrence is not behind the place up to which the value occurs. -/
theorem LastAt.of_append {l l' : List α} {i : Nat} {x : α} (h : LastAt (l ++ l') i x)
    (hx : x ∉ l') : LastAt l i x := by
  obtain ⟨hi, hlast⟩ := h
  have hlt : i < l.length := by
    by_contra hge
    rw [List.getElem?_append_right (Nat.not_lt.mp hge)] at hi
    exact hx (List.mem_of_getElem? hi)
  refine ⟨by rwa [List.getElem?_append_left hlt] at hi, fun j hj hjx => hlast j hj ?_⟩
  obtain ⟨hjlt, -⟩ := List.getElem?_eq_some_iff.mp hjx
  rwa [List.getElem?_append_left hjlt]

/-- What occurs in a list occurs there for a last time. -/
theorem exists_lastAt {l : List α} {x : α} (h : x ∈ l) : ∃ i, LastAt l i x := by
  induction l using List.reverseRecOn with
  | nil => cases h
  | append_singleton l y ih =>
      by_cases hxy : x = y
      · exact ⟨l.length, hxy ▸ lastAt_append_singleton l y⟩
      · obtain ⟨i, hi⟩ := ih ((List.mem_append.mp h).resolve_right (by simpa using hxy))
        exact ⟨i, hi.append (by simpa using hxy)⟩

/-- There is one last occurrence. -/
theorem LastAt.unique {l : List α} {i j : Nat} {x : α} (h : LastAt l i x) (h' : LastAt l j x) :
    i = j := by
  rcases Nat.lt_trichotomy i j with hlt | heq | hlt
  · exact absurd h'.1 (h.2 j hlt)
  · exact heq
  · exact absurd h.1 (h'.2 i hlt)

/-- The last occurrence keeps its place under an injective function. -/
theorem LastAt.map {β : Type} {f : α → β} (hf : Function.Injective f) {l : List α} {i : Nat}
    {x : α} (h : LastAt l i x) : LastAt (l.map f) i (f x) := by
  refine ⟨by rw [List.getElem?_map, h.1]; rfl, fun j hj hjx => h.2 j hj ?_⟩
  rw [List.getElem?_map] at hjx
  obtain ⟨y, hy, hxy⟩ := Option.map_eq_some_iff.mp hjx
  rw [hy, hf hxy]

end Lib
