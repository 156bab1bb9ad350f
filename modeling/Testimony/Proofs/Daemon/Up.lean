import Testimony.Proofs.Daemon.Rest

/-!
# `Testimony.Proofs.Daemon.Up`: connections that stay up

What ends the main loop of `conn.run` comes from outside: the client hangs up, a write to it fails,
or it returns a block that is not outstanding. Left alone, with a client that does none of this, the
goroutines of a socket leave a connection up (`Move.up`).
-/

set_option autoImplicit false

namespace Testimony.Daemon

open Lib

variable {k : Conf} {s s' : State k} {c : ConnId} {cn cn' : Conn k} {slow gone : Set ConnId}

/-- `conn.run` is in its main loop, and `handleReads` waits for the client or passes on what it has
read. -/
structure Conn.Up (cn : Conn k) : Prop where
  looping : cn.pc.looping = true
  reads : cn.reads = .read ∨ ∃ v, cn.reads = .post v
  notClosed : cn.closed = false

/-- The next return, if there is one, is of an outstanding block. -/
def Conn.ReturnsDue (cn : Conn k) : Prop :=
  ∀ v q, cn.oldBlocks.recv = .got v q → ∃ b : k.Index, v = b.val + 1 ∧ cn.outstanding b = true

/-- While a connection is up, `handleReads` has not closed `oldBlocks`. -/
theorem Conn.Up.oldBlocks_open (h : cn.Up) (hok : cn.Ok) : cn.oldBlocks.closed = false := by
  by_contra hclosed
  have hdone := hok.done_iff.mpr (Bool.eq_true_of_not_eq_false hclosed)
  rcases h.reads with hreads | ⟨v, hreads⟩ <;> rw [hreads] at hdone <;> cases hdone

/-- A step of `conn.run` inside its connection leaves it up, if no write fails and what it receives
from `oldBlocks` is an outstanding block. -/
theorem Conn.Up.runMove {ch : ConnChoice} {es : List (Event k)} (h : cn.Up) (hok : cn.Ok)
    (hdue : cn.ReturnsDue) (hch : ch ≠ .writeError) (hm : cn.RunMove c ch cn' es) : cn'.Up := by
  have hloop := h.looping
  cases hm with
  | recvNew | accept | mark | batchMore | batchDone => exact ⟨rfl, h.reads, h.notClosed⟩
  | wrote =>
      refine ⟨?_, h.reads, h.notClosed⟩
      dsimp only
      split <;> rfl
  | reject hpc hq hv =>
      obtain ⟨b, rfl, hb⟩ := hdue _ _ hq
      rcases hv with hv | ⟨b', hbb, hb'⟩
      · cases hv
      · rw [Fin.ext (Nat.succ.inj hbb), hb'] at hb
        cases hb
  | endOfReads hpc hq =>
      have hclosed := (Chan.recv_eq_closed.mp hq).2
      rw [h.oldBlocks_open hok] at hclosed
      cases hclosed
  | writeError hpc => exact absurd rfl hch
  | close hpc | drainNew hpc | drainNewDone hpc | drainOld hpc | drainOldDone hpc | sweepHit hpc
  | sweepMiss hpc | sweepDone hpc =>
      rw [hpc] at hloop
      cases hloop

/-- Without data from the client, `handleReads` can only pass on what it has. -/
theorem Conn.Up.readsMove {inp : ReadInput} (h : cn.Up) (hinp : ¬ cn.reads.Reading)
    (hm : cn.ReadsMove inp cn') : cn'.Up := by
  cases hm with
  | word hpc | short hpc => exact absurd (.inl hpc) hinp
  | stop hpc => exact absurd hpc hinp
  | value hpc => exact absurd (.inr ⟨_, hpc⟩) hinp
  | post => exact ⟨h.looping, .inl rfl, h.notClosed⟩
  | closeOldBlocks hpc =>
      rcases h.reads with hreads | ⟨v, hreads⟩ <;> rw [hpc] at hreads <;> cases hreads

/-- In its main loop `conn.run` gives up a reference that the client has returned, and goes back to
the `select`. -/
theorem Conn.Up.resume {b : k.Index} {next : Resume} {pc : ConnPc k} (h : cn.Up)
    (hpc : cn.pc = .unref b next ∨ cn.pc = .clear b next)
    (hpc' : pc = next.pc ∨ pc = .clear b next) : { cn with pc := pc }.Up := by
  have hnext : next = .select := by
    have hloop := h.looping
    rcases hpc with hpc | hpc <;> rw [hpc] at hloop <;> cases next <;> first | rfl | cases hloop
  refine ⟨?_, h.reads, h.notClosed⟩
  subst hnext
  rcases hpc' with rfl | rfl <;> rfl

/-- A step that changes connection `d`. -/
theorem Conn.Up.update {d : ConnId} (h : (s.conn c).Up) (hd : c = d → cn.Up) :
    (Function.update s.conn d cn c).Up := by
  by_cases hcd : c = d
  · subst hcd
    rw [Function.update_self]
    exact hd rfl
  · rwa [Function.update_of_ne hcd]

/-- A step of its own does not fail a write to a client that is there. -/
theorem Own.ne_writeError {ch : ConnChoice} (h : Own slow gone s (.conn c ch)) (hgone : c ∉ gone) :
    ch ≠ .writeError := by
  rintro rfl
  rcases h.2 with hdue | hlabel
  · exact hgone hdue
  · cases hlabel

/-- A step of its own does not end the stream of a client that is there. -/
theorem Own.not_reading {inp : ReadInput} (h : Own slow gone s (.reads c inp)) (hgone : c ∉ gone)
    (hopen : (s.conn c).closed = false) : ¬ (s.conn c).reads.Reading := by
  intro hreading
  rcases h.2 with hdue | hlabel
  · cases inp with
    | data bytes => exact hdue
    | eof | error =>
        rcases hdue hreading with hc | hclosed
        · exact hgone hc
        · rw [hopen] at hclosed
          cases hclosed
  · cases hlabel

/-- The goroutines by themselves leave a connection up whose client is not gone. -/
theorem Move.up {l : Label k} (hm : Move s l s') (h : (s.conn c).Up) (hok : (s.conn c).Ok)
    (hdue : (s.conn c).ReturnsDue) (hown : Own slow gone s l) (hgone : c ∉ gone) :
    (s'.conn c).Up := by
  cases hm with
  | fill | register => cases hown.external_eq
  | countZero | statusSet | notReady | waited | ref | dispatch | take | delete | visit | endRange
  | skipped | runUnref | runUnrefZero | runClear => exact h
  | oldConn _ _ hold =>
      refine h.update fun hcd => ?_
      -- The connection that leaves is not in its main loop.
      have hloop := h.looping
      rw [hcd, hold] at hloop
      cases hloop
  | closeNewBlocks | sent =>
      exact h.update fun hcd => hcd ▸ ⟨h.looping, h.reads, h.notClosed⟩
  | connUnref _ hpc => exact h.update fun hcd => (hcd ▸ h).resume (.inl hpc) (.inl rfl)
  | connUnrefZero _ hpc => exact h.update fun hcd => (hcd ▸ h).resume (.inl hpc) (.inr rfl)
  | connClear _ hpc => exact h.update fun hcd => (hcd ▸ h).resume (.inr hpc) (.inl rfl)
  | connRun _ hmove =>
      refine h.update fun hcd => ?_
      subst hcd
      exact h.runMove hok hdue (hown.ne_writeError hgone) hmove
  | connReads _ hmove =>
      refine h.update fun hcd => ?_
      subst hcd
      exact h.readsMove (hown.not_reading hgone h.notClosed) hmove

end Testimony.Daemon
