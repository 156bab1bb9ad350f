import Mathlib.Logic.Basic

/-!
# `Testimony.Lib.Transition`: guarded runs of an executable transition system

A system is an initial state and a partial step function. The label of a step resolves
every choice the step leaves open (which thread moves, what the environment answers), so
one function serves both for replaying a concrete run (`exec`) and for reasoning about all
of them (`ReachableBy`).

`ReachableBy G` collects the states reached by runs whose every step satisfies the guard
`G` in the state it starts from. Plain reachability is the guard that always holds. The
induction rule hands each step the reachability of its start state, so an invariant may
use the invariants proved before it.
-/

set_option autoImplicit false

namespace Lib

universe u v

/-- A transition system with states `σ` and labels `ε`. `step s e` is `none` when the
label `e` is not enabled in `s`. -/
structure System (σ : Type u) (ε : Type v) where
  init : σ
  step : σ → ε → Option σ

namespace System

variable {σ : Type u} {ε : Type v} (M : System σ ε)

/-- Replay a list of labels. The result is `none` when one of them is not enabled. -/
def exec : σ → List ε → Option σ
  | s, [] => some s
  | s, e :: es => (M.step s e).bind fun s' => exec s' es

/-- Replay a list of labels that all satisfy `G` where they stand. -/
def execBy (G : σ → ε → Prop) [∀ s e, Decidable (G s e)] : σ → List ε → Option σ
  | s, [] => some s
  | s, e :: es => if G s e then (M.step s e).bind fun s' => execBy G s' es else none

/-- The states reached by runs whose steps all satisfy `G` where they start. -/
inductive ReachableBy (G : σ → ε → Prop) : σ → Prop
  | init : ReachableBy G M.init
  | step {s s' : σ} {e : ε} :
      ReachableBy G s → G s e → M.step s e = some s' → ReachableBy G s'

/-- The states reached by any run. -/
def Reachable (s : σ) : Prop := M.ReachableBy (fun _ _ => True) s

variable {M}

/-- A system can be where it starts. -/
theorem Reachable.init : M.Reachable M.init := ReachableBy.init

/-- A step leads from a state that the system can be in to another one. -/
theorem Reachable.step {s s' : σ} {e : ε} (h : M.Reachable s)
    (hstep : M.step s e = some s') : M.Reachable s' :=
  ReachableBy.step h trivial hstep

/-- A guarded run is a run. -/
theorem ReachableBy.reachable {G : σ → ε → Prop} {s : σ} (h : M.ReachableBy G s) :
    M.Reachable s := by
  induction h with
  | init => exact Reachable.init
  | step _ _ hstep ih => exact ih.step hstep

/-- An invariant of the guarded runs: it holds at the start, and every step from a guarded
state that satisfies the guard keeps it. -/
theorem ReachableBy.invariant {G : σ → ε → Prop} {P : σ → Prop} (hinit : P M.init)
    (hstep : ∀ s e s', M.ReachableBy G s → P s → G s e → M.step s e = some s' → P s')
    {s : σ} (h : M.ReachableBy G s) : P s := by
  induction h with
  | init => exact hinit
  | step hs hG hse ih => exact hstep _ _ _ hs ih hG hse

/-- An invariant of all runs. -/
theorem Reachable.invariant {P : σ → Prop} (hinit : P M.init)
    (hstep : ∀ s e s', M.Reachable s → P s → M.step s e = some s' → P s')
    {s : σ} (h : M.Reachable s) : P s :=
  ReachableBy.invariant hinit (fun s e s' hs hP _ hse => hstep s e s' hs hP hse) h

/-- Replaying labels from a reachable state stays in the reachable states. -/
theorem Reachable.exec {s : σ} (hs : M.Reachable s) :
    ∀ (es : List ε) {s' : σ}, M.exec s es = some s' → M.Reachable s' := by
  intro es
  induction es generalizing s with
  | nil =>
      intro s' h
      simp only [System.exec, Option.some.injEq] at h
      exact h ▸ hs
  | cons e es ih =>
      intro s' h
      simp only [System.exec, Option.bind_eq_some_iff] at h
      obtain ⟨s₁, hse, hrest⟩ := h
      exact ih (hs.step hse) hrest

/-- The end of a replay from the initial state is reachable. -/
theorem reachable_of_exec {es : List ε} {s : σ} (h : M.exec M.init es = some s) :
    M.Reachable s :=
  Reachable.init.exec es h

/-- A measure that every step makes smaller bounds the length of a run. -/
theorem length_le_of_exec {m : σ → Nat} (hm : ∀ s e s', M.step s e = some s' → m s' < m s)
    (es : List ε) : ∀ {s s' : σ}, M.exec s es = some s' → es.length ≤ m s := by
  induction es with
  | nil => exact fun _ => Nat.zero_le _
  | cons e es ih =>
      intro s s' h
      obtain ⟨s₁, hse, hrest⟩ := Option.bind_eq_some_iff.mp h
      exact Nat.lt_of_le_of_lt (ih hrest) (hm s e s₁ hse)

/-- Replaying guarded labels stays in the states of the guarded runs. -/
theorem ReachableBy.exec {G : σ → ε → Prop} [∀ s e, Decidable (G s e)] {s : σ}
    (hs : M.ReachableBy G s) :
    ∀ (es : List ε) {s' : σ}, M.execBy G s es = some s' → M.ReachableBy G s' := by
  intro es
  induction es generalizing s with
  | nil =>
      intro s' h
      simp only [execBy, Option.some.injEq] at h
      exact h ▸ hs
  | cons e es ih =>
      intro s' h
      unfold execBy at h
      split at h
      · rename_i hG
        obtain ⟨s₁, hse, hrest⟩ := Option.bind_eq_some_iff.mp h
        exact ih (.step hs hG hse) hrest
      · cases h

end System

end Lib
