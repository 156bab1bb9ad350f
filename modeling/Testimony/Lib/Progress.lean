import Testimony.Lib.Transition

/-!
# `Testimony.Lib.Progress`: how a run goes on

Runs that begin in a given state (`startAt`), and the two rules that a measure gives for them. A
measure that no step makes larger bounds the number of steps that make it smaller
(`count_le_of_execBy`). If a state is either a goal or has a run behind it that makes the measure
smaller, then every state has a run to a goal (`exists_of_measure`).

Two systems can be compared by such runs: if every step of one is answered by a run of the other
that leads back into a relation, then every state of the one has its counterpart
(`ReachableBy.simulates`).
-/

set_option autoImplicit false

namespace Lib.System

universe u v

variable {σ : Type u} {ε : Type v} {M : System σ ε} {G H : σ → ε → Prop}

/-- A weaker guard allows more runs. -/
theorem ReachableBy.mono (hGH : ∀ s e, G s e → H s e) {s : σ} (h : M.ReachableBy G s) :
    M.ReachableBy H s := by
  induction h with
  | init => exact .init
  | step _ hG hstep ih => exact .step ih (hGH _ _ hG) hstep

/-- The same steps, from the state `s`. -/
def startAt (M : System σ ε) (s : σ) : System σ ε := { M with init := s }

/-- Where a run starts is reachable without a step. -/
theorem ReachableBy.refl (s : σ) : (M.startAt s).ReachableBy G s := .init (M := M.startAt s)

/-- A run and one that goes on where it ends. -/
theorem ReachableBy.trans {s s' : σ} (h : M.ReachableBy G s)
    (h' : (M.startAt s).ReachableBy G s') : M.ReachableBy G s' := by
  induction h' with
  | init => exact h
  | step _ hG hstep ih => exact .step ih hG hstep

/-- A single step. -/
theorem ReachableBy.one {s s' : σ} {e : ε} (hG : G s e) (hstep : M.step s e = some s') :
    (M.startAt s).ReachableBy G s' :=
  .step (.refl s) hG hstep

/-- How many steps of a replay are steps that `p` counts. -/
def count (M : System σ ε) (p : σ → ε → Bool) : σ → List ε → Nat
  | _, [] => 0
  | s, e :: es =>
      match M.step s e with
      | some s' => (p s e).toNat + M.count p s' es
      | none => 0

/-- A measure that is never made larger, and is made smaller by the steps that `p` counts, bounds
their number. -/
theorem count_le_of_execBy [∀ s e, Decidable (G s e)] {P : σ → Prop} {m : σ → Nat}
    {p : σ → ε → Bool}
    (hstep : ∀ s e s', P s → G s e → M.step s e = some s' → P s' ∧ m s' + (p s e).toNat ≤ m s)
    (es : List ε) : ∀ {s s' : σ}, P s → M.execBy G s es = some s' →
      M.count p s es + m s' ≤ m s := by
  induction es with
  | nil =>
      intro s s' _ h
      cases h
      exact Nat.le_of_eq (Nat.zero_add _)
  | cons e es ih =>
      intro s s' hs h
      unfold execBy at h
      split at h
      · rename_i hG
        obtain ⟨s₁, hse, hrest⟩ := Option.bind_eq_some_iff.mp h
        obtain ⟨hs₁, hle⟩ := hstep s e s₁ hs hG hse
        have hcount := ih hs₁ hrest
        simp only [count, hse]
        omega
      · cases h

/-- A run to a goal, from every state that is one or has a run behind it that makes the measure
smaller. -/
theorem exists_of_measure {P R : σ → Prop} (m : σ → Nat)
    (hstep : ∀ s, P s → R s ∨ ∃ s', (M.startAt s).ReachableBy G s' ∧ P s' ∧ m s' < m s) {s : σ}
    (hs : P s) : ∃ s', (M.startAt s).ReachableBy G s' ∧ P s' ∧ R s' := by
  induction hm : m s using Nat.strongRecOn generalizing s with
  | ind n ih =>
      rcases hstep s hs with hR | ⟨s₁, hrun, hs₁, hlt⟩
      · exact ⟨s, .refl s, hs, hR⟩
      · obtain ⟨s', hrun', hs', hR⟩ := ih (m s₁) (hm ▸ hlt) hs₁ rfl
        exact ⟨s', hrun.trans hrun', hs', hR⟩

/-- Each step of `M` is answered by a run of `N`, which may be empty. -/
theorem ReachableBy.simulates {σ' : Type u} {ε' : Type v} {N : System σ' ε'}
    {H : σ' → ε' → Prop} {R : σ → σ' → Prop} (hinit : R M.init N.init)
    (hstep : ∀ s e s' t, N.ReachableBy H t → R s t → G s e → M.step s e = some s' →
      ∃ t', (N.startAt t).ReachableBy H t' ∧ R s' t')
    {s : σ} (h : M.ReachableBy G s) : ∃ t, N.ReachableBy H t ∧ R s t := by
  induction h with
  | init => exact ⟨N.init, .init, hinit⟩
  | step _ hG hse ih =>
      obtain ⟨t, ht, hR⟩ := ih
      obtain ⟨t', hrun, hR'⟩ := hstep _ _ _ t ht hR hG hse
      exact ⟨t', ht.trans hrun, hR'⟩

end Lib.System
