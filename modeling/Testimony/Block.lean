import Mathlib.Logic.Basic

/-!
# `Testimony.Block`: the life of one block

The protocol the daemon and the kernel follow for a single block of the ring, without the
goroutines: how often the block is referenced, whether the kernel has filled it, how many
`clear`s are pending, and how far `getNewBlocks` is with it. `Step` lists what can happen to
it, and names the actions the ordering results talk about.

`Act.load`, the load of the status, is the one action with a condition of its own. Where it
never meets a pending clear (`Step.ok`), the block is filled as long as it is referenced and
a pending clear meets no reference. Then fills and dispatches take turns (`Step.fill_turn`,
`Step.dispatch_turn`, `Step.clear_turn`, `Step.other_turn`).
-/

set_option autoImplicit false

namespace Testimony

/-- How far `getNewBlocks` is with the block. -/
inductive Block.Phase where
  | away
  /-- The count was read as zero. -/
  | loaded
  /-- The status was read as set. -/
  | taking
  /-- The block is referenced and not yet sent. -/
  | sending
  deriving DecidableEq

/-- One block. `filled` says that its status is not zero, `clears` counts the `unref`s that
have reached zero and not yet cleared the status. -/
@[ext]
structure Block where
  r : Int
  filled : Bool
  clears : Nat
  phase : Block.Phase

namespace Block

/-- What a step of a block shows to the outside: the kernel fills it, `getNewBlocks` dispatches it
or loads its status, the last `unref` clears it, or none of these. -/
inductive Act where
  | fill
  | dispatch
  | clear
  | load
  | silent
  deriving DecidableEq

/-- What can happen to a block. Only a party that holds a reference adds or drops one, apart
from `getNewBlocks`, which takes the first one. -/
inductive Step (v : Block) : Act → Block → Prop
  | idle : Step v .silent v
  | fill (h : v.filled = false) : Step v .fill { v with filled := true }
  | loadCount (hphase : v.phase = .away) (h : v.r = 0) :
      Step v .silent { v with phase := .loaded }
  | loadStatus (hphase : v.phase = .loaded) (h : v.filled = true) :
      Step v .load { v with phase := .taking }
  | leave (hphase : v.phase = .away ∨ v.phase = .loaded) :
      Step v .silent { v with phase := .away }
  | take (hphase : v.phase = .taking) :
      Step v .silent { v with r := v.r + 1, phase := .sending }
  | dispatch (hphase : v.phase = .sending) : Step v .dispatch { v with phase := .away }
  | ref (hphase : v.phase ≠ .sending) (h : 0 < v.r) : Step v .silent { v with r := v.r + 1 }
  | unref (hphase : v.phase ≠ .sending) (h : 1 < v.r) : Step v .silent { v with r := v.r - 1 }
  | unrefZero (hphase : v.phase ≠ .sending) (h : v.r = 1) :
      Step v .silent { v with r := 0, clears := v.clears + 1 }
  | clear (h : 0 < v.clears) :
      Step v .clear { v with filled := false, clears := v.clears - 1 }

/-- The invariant of a block whose status is never loaded under a pending clear. -/
structure Ok (v : Block) : Prop where
  nonneg : 0 ≤ v.r
  free : v.phase = .loaded ∨ v.phase = .taking → v.r = 0
  first : v.phase = .sending → v.r = 1
  pending : 0 < v.clears → v.clears = 1 ∧ v.r = 0 ∧ v.filled = true ∧ v.phase ≠ .taking
  held : 0 < v.r → v.filled = true
  taking : v.phase = .taking → v.filled = true

/-- A block with a reference has no pending clear. -/
theorem Ok.clears_eq_zero {v : Block} (h : v.Ok) (hr : 0 < v.r) : v.clears = 0 := by
  refine Nat.eq_zero_of_not_pos fun hc => ?_
  have hzero := (h.pending hc).2.1
  omega

/-- The kernel's blocks have no reference and no pending clear. -/
theorem Ok.of_empty {v : Block} (h : v.Ok) (hempty : v.filled = false) :
    v.r = 0 ∧ v.clears = 0 := by
  constructor
  · have hnot : ¬ 0 < v.r := fun hr => by simp [h.held hr] at hempty
    have hnonneg := h.nonneg
    omega
  · exact Nat.eq_zero_of_not_pos fun hc => by simp [(h.pending hc).2.2.1] at hempty

/-- Every step keeps the invariant, provided a load of the status meets no pending clear. -/
theorem Step.ok {v v' : Block} {act : Act} (hstep : v.Step act v') (h : v.Ok)
    (hload : act = .load → v.clears = 0) : v'.Ok := by
  cases hstep with
  | idle => exact h
  | fill hempty =>
      refine ⟨h.nonneg, h.free, h.first, fun hc => ?_, fun _ => rfl, fun _ => rfl⟩
      exact absurd (h.of_empty hempty).2 (Nat.ne_of_gt hc)
  | loadCount hphase hr =>
      refine ⟨h.nonneg, fun _ => hr, nofun, fun hc => ?_, h.held, nofun⟩
      obtain ⟨h1, h2, h3, -⟩ := h.pending hc
      exact ⟨h1, h2, h3, nofun⟩
  | loadStatus hphase hfilled =>
      -- The guard: without it a clear could still be on its way here.
      have hnone := hload rfl
      refine ⟨h.nonneg, fun _ => h.free (.inl hphase), nofun, fun hc => ?_, h.held,
        fun _ => hfilled⟩
      exact absurd hnone (Nat.ne_of_gt hc)
  | leave hphase =>
      refine ⟨h.nonneg, by simp, nofun, fun hc => ?_, h.held, nofun⟩
      obtain ⟨h1, h2, h3, -⟩ := h.pending hc
      exact ⟨h1, h2, h3, nofun⟩
  | take hphase =>
      have hzero := h.free (.inr hphase)
      refine ⟨?_, by simp, fun _ => ?_, fun hc => ?_, fun _ => h.taking hphase, nofun⟩
      · show 0 ≤ v.r + 1
        omega
      · show v.r + 1 = 1
        omega
      · exact absurd hphase (h.pending hc).2.2.2
  | dispatch hphase =>
      have hone := h.first hphase
      refine ⟨h.nonneg, by simp, nofun, fun hc => ?_, h.held, nofun⟩
      have hzero := (h.pending hc).2.1
      omega
  | ref hphase hr =>
      have hnone := h.clears_eq_zero hr
      refine ⟨?_, fun hp => ?_, fun hp => absurd hp hphase, fun hc => ?_, fun _ => h.held hr,
        h.taking⟩
      · show 0 ≤ v.r + 1
        omega
      · have hzero := h.free hp
        omega
      · exact absurd hnone (Nat.ne_of_gt hc)
  | unref hphase hr =>
      have hpos : 0 < v.r := by omega
      have hnone := h.clears_eq_zero hpos
      refine ⟨?_, fun hp => ?_, fun hp => absurd hp hphase, fun hc => ?_, fun _ => h.held hpos,
        h.taking⟩
      · show 0 ≤ v.r - 1
        omega
      · have hzero := h.free hp
        omega
      · exact absurd hnone (Nat.ne_of_gt hc)
  | unrefZero hphase hr =>
      have hpos : 0 < v.r := by omega
      have hnone := h.clears_eq_zero hpos
      refine ⟨Int.le_refl 0, fun _ => rfl, fun hp => absurd hp hphase, fun _ => ?_, nofun,
        h.taking⟩
      refine ⟨by simp [hnone], rfl, h.held hpos, fun hp => ?_⟩
      have hzero := h.free (.inr hp)
      omega
  | clear hc =>
      obtain ⟨h1, h2, -, h4⟩ := h.pending hc
      refine ⟨h.nonneg, h.free, h.first, fun hc' => ?_, fun hr => ?_, fun hp => absurd hp h4⟩
      · have hpos : 0 < v.clears - 1 := hc'
        omega
      · have hpos : 0 < v.r := hr
        omega

/-! ### Turns -/

/-- The fill the block carries has not been dispatched. -/
def Undelivered (v : Block) : Prop :=
  v.filled = true ∧ v.clears = 0 ∧ (v.r = 0 ∨ v.phase = .sending)

/-- A fill makes a block undelivered that was not. -/
theorem Step.fill_turn {v v' : Block} (hstep : v.Step .fill v') (h : v.Ok) :
    ¬ v.Undelivered ∧ v'.Undelivered := by
  cases hstep with
  | fill hempty =>
      obtain ⟨hr, hc⟩ := h.of_empty hempty
      refine ⟨fun hu => ?_, rfl, hc, .inl hr⟩
      rw [hu.1] at hempty
      cases hempty

/-- A dispatch delivers the fill. -/
theorem Step.dispatch_turn {v v' : Block} (hstep : v.Step .dispatch v') (h : v.Ok) :
    v.Undelivered ∧ ¬ v'.Undelivered := by
  cases hstep with
  | dispatch hphase =>
      have hone := h.first hphase
      have hpos : 0 < v.r := by omega
      refine ⟨⟨h.held hpos, h.clears_eq_zero hpos, .inr hphase⟩, ?_⟩
      rintro ⟨-, -, hr | hp⟩
      · have hr' : v.r = 0 := hr
        omega
      · cases hp

/-- A clear meets a fill that was delivered. -/
theorem Step.clear_turn {v v' : Block} (hstep : v.Step .clear v') :
    ¬ v.Undelivered ∧ ¬ v'.Undelivered := by
  cases hstep with
  | clear hc =>
      refine ⟨fun hu => ?_, fun hu => ?_⟩
      · exact absurd hu.2.1 (Nat.ne_of_gt hc)
      · cases hu.1

/-- Nothing else changes whether a block is delivered. -/
theorem Step.other_turn {v v' : Block} {act : Act} (hstep : v.Step act v') (h : v.Ok)
    (hact : act = .silent ∨ act = .load) : v'.Undelivered ↔ v.Undelivered := by
  cases hstep with
  | idle => exact Iff.rfl
  | fill _ | dispatch _ | clear _ => simp at hact
  | loadCount hphase hr => simp [Undelivered, hr]
  | loadStatus hphase hfilled =>
      simp [Undelivered, h.free (.inl hphase)]
  | leave hphase =>
      have hne : v.phase ≠ .sending := by rcases hphase with hp | hp <;> simp [hp]
      simp [Undelivered, hne]
  | take hphase => simp [Undelivered, h.free (.inr hphase)]
  | ref hphase hr =>
      have h1 : v.r + 1 ≠ 0 := by omega
      have h2 : v.r ≠ 0 := by omega
      simp [Undelivered, hphase, h1, h2]
  | unref hphase hr =>
      have h1 : v.r - 1 ≠ 0 := by omega
      have h2 : v.r ≠ 0 := by omega
      simp [Undelivered, hphase, h1, h2]
  | unrefZero hphase hr => simp [Undelivered, hphase, hr]

end Block

end Testimony
