import Testimony.Capture
import Testimony.Proofs.EndToEnd

/-!
# `Testimony.Proofs.Capture`: the program sees what the kernel wrote

`data_intact` puts the order of the indexes and the life of a block together. While the program has
the block it was given as its `i`-th, the ring holds the packets that the kernel wrote as its
`i`-th block since the client joined. So what a program reads, block after block, are the packets
of the interface, with nothing left out, repeated or overwritten.

The ring is compared with the log of the fills: what is in a block is what its last fill has
written (`RingOk`). Which fill that is comes from `lastFill_of_owes`.
-/

set_option autoImplicit false

namespace Testimony.Capture

open Lib Source Client Daemon

variable {k : Conf} {α : Type} {c : ConnId} {t : T} {s s' : State k α}

/-- A guard of the daemon's steps. -/
def Guarded (P : Daemon.State k → Daemon.Label k → Prop) (s : State k α) : Label k α → Prop
  | .fill b status _ => P s.session.daemon (.fill b status)
  | .session l => Session.Guarded P s.session l

/-- A condition on the daemon's steps that can be decided can be decided of the steps here. -/
instance (P : Daemon.State k → Daemon.Label k → Prop) [∀ d l, Decidable (P d l)] (s : State k α)
    (l : Label k α) : Decidable (Guarded P s l) := by
  unfold Guarded
  split <;> infer_instance

/-- Without the ring it is a session. -/
theorem session_of_guarded {P : Daemon.State k → Daemon.Label k → Prop}
    (h : (system k α c t).ReachableBy (Guarded P) s) :
    (Session.system k c t).ReachableBy (Session.Guarded P) s.session := by
  refine System.ReachableBy.invariant
    (P := fun s : State k α =>
      (Session.system k c t).ReachableBy (Session.Guarded P) s.session) .init ?_ h
  intro s l s' _ hs hG hstep
  change step c s l = some s' at hstep
  cases l with
  | fill b status packets =>
      obtain ⟨session, hsession, rfl⟩ := Option.map_eq_some_iff.mp hstep
      exact hs.step (e := .daemon (.fill b status)) hG hsession
  | session l =>
      simp only [step] at hstep
      split at hstep
      · cases hstep
      · obtain ⟨session, hsession, rfl⟩ := Option.map_eq_some_iff.mp hstep
        exact hs.step hG hsession

/-! ### The ring and the fills -/

/-- The ring holds what the last fill of each block has written. -/
structure RingOk (s : State k α) : Prop where
  length_eq : s.captured.length = (fills s.session.daemon.log).length
  last : ∀ b p, LastAt (fills s.session.daemon.log) p b → s.ring b = s.captured[p]?

/-- A step that is no fill leaves the fills as they are. -/
theorem fills_of_session {t' : Session.State k} {l : Session.Label k} {t : Session.State k}
    (ht : Daemon.Inv t.daemon) (hstep : Session.step c t l = some t') (hl : isFill l = false) :
    fills t'.daemon.log = fills t.daemon.log := by
  cases Session.step_cases hstep with
  | daemon hl' hd =>
      refine ht.fills_eq hd ?_
      rintro b v rfl
      cases hl
  | deliver hback hpc hd => exact ht.fills_eq hd nofun
  | arrive | stop | call hcaller => rfl

/-- A fill is recorded as the last one. -/
theorem fills_of_fill {b : k.Index} {status : UInt32} {t t' : Session.State k}
    (ht : Daemon.Inv t.daemon) (hstep : Session.step c t (.daemon (.fill b status)) = some t') :
    fills t'.daemon.log = fills t.daemon.log ++ [b] := by
  obtain ⟨d, hd, rfl⟩ := Option.map_eq_some_iff.mp hstep
  rcases ht.step_cases hd with hm | ⟨errno, -, hlabel, -⟩
  · cases hm
    exact fills_append _ _
  · cases hlabel

/-- Every step keeps the ring in line with the fills. -/
theorem RingOk.step {l : Label k α} (h : RingOk s) (hs : Daemon.Inv s.session.daemon)
    (hstep : step c s l = some s') : RingOk s' := by
  cases l with
  | fill b status packets =>
      obtain ⟨session, hsession, rfl⟩ := Option.map_eq_some_iff.mp hstep
      have hfills := fills_of_fill hs hsession
      refine ⟨by simp [hfills, h.length_eq], fun b' p hp => ?_⟩
      rw [hfills] at hp
      dsimp only
      by_cases hb : b' = b
      · subst hb
        rw [Function.update_self, hp.unique (lastAt_append_singleton _ _), ← h.length_eq]
        simp
      · have hlast := hp.of_append (by simpa using hb)
        obtain ⟨hlt, -⟩ := List.getElem?_eq_some_iff.mp hlast.1
        rw [Function.update_of_ne hb, List.getElem?_append_left (h.length_eq ▸ hlt)]
        exact h.last b' p hlast
  | session l =>
      simp only [Capture.step] at hstep
      split at hstep
      · cases hstep
      · rename_i hl
        obtain ⟨session, hsession, rfl⟩ := Option.map_eq_some_iff.mp hstep
        have hfills := fills_of_session hs hsession (by simpa using hl)
        exact ⟨h.length_eq.trans (by rw [hfills]), fun b p hp => h.last b p (hfills ▸ hp)⟩

/-- The ring holds the last fills in every state of a session. -/
theorem ringOk_of_guarded {P : Daemon.State k → Daemon.Label k → Prop}
    (hP : ∀ d bytes, P d (.reads c (.data bytes)))
    (h : (system k α c t).ReachableBy (Guarded P) s) : RingOk s := by
  refine System.ReachableBy.invariant (P := RingOk) ⟨rfl, fun _ _ hp => by cases hp.1⟩ ?_ h
  intro s l s' hr hs _ hstep
  have hdaemon := Session.daemon_of_guarded hP (session_of_guarded hr)
  exact hs.step (Daemon.inv_of_reachable hdaemon.reachable) hstep

/-! ### What the program has -/

/-- A block that the program holds is in one of its places. -/
theorem places_pos_of_held {s : Session.State k} {b : k.Index}
    (hb : (s.caller.held b).isSome = true) : 0 < Session.places c s b := by
  simp only [Session.places, Session.held, hb, Bool.toNat_true]
  omega

/-- The last time the program was given a block it has is the last time the block was marked. -/
theorem lastMark_of_held {s : Session.State k} (h : Session.Inv c s) (hk : k.numBlocks < 2 ^ 31)
    {b : k.Index} (hb : (s.caller.held b).isSome = true) :
    ∃ i, LastAt s.caller.given i (UInt32.ofNat b.val) ∧ LastAt (marks c s.daemon.log) i b := by
  obtain ⟨hone, b', hval, hout⟩ := h.index (places_pos_of_held hb)
  rw [Fin.ext hval] at hout
  obtain ⟨i, hi⟩ := exists_lastAt (((traced_of_reachable h.reach).conn c).marked b hout)
  refine ⟨i, ?_, hi⟩
  -- The block is in one place only, so its index is not on the way to the program as well.
  simp only [Session.places, Session.held, hb, Bool.toNat_true] at hone
  have hnotMem : ∀ l : List UInt32, (l.map UInt32.toNat).count b.val = 0 →
      UInt32.ofNat b.val ∉ l := by
    intro l hl hmem
    exact List.count_eq_zero.mp hl (List.mem_map.mpr ⟨_, hmem, Session.toNat_ofNat_val hk b⟩)
  obtain ⟨js, hwords, hjs, -⟩ := h.rest hk
  have hword : LastAt (Session.words c s) i (UInt32.ofNat b.val) :=
    hi.map (Session.ofNat_val_injective hk)
  rw [hwords, Caller.seen] at hword
  exact (hword.of_append (hnotMem _ (by rw [hjs]; omega))).of_append (hnotMem _ (by omega))

/-- While a C program has a block, the ring holds the packets that the kernel wrote there for it, in
a run without a stale load in which the kernel fills the ring in order. If the block is the `i`-th
that the program was given, these are the packets of the `i`-th block that `socket.run` took since
the client was registered. This holds as long as `conn.run` has not dropped the block in its last
loop. -/
theorem data_intact (hk : k.numBlocks < 2 ^ 31) (ht : t.Initiated k.numBlocks)
    (hsock : pending t.sock = []) (h : (system k α c t).ReachableBy (Guarded Orderly) s)
    {b : k.Index} (hb : (s.session.caller.held b).isSome = true)
    (hpc : (s.session.daemon.conn c).pc.unswept b = true) :
    ∃ i packets, LastAt s.session.caller.given i (UInt32.ofNat b.val) ∧ s.ring b = some packets ∧
      s.captured[joined c s.session.daemon.log + i]? = some packets := by
  have hsession := session_of_guarded h
  have hinv := Session.inv_of_initiated hk ht hsock hsession.reachable
  have howes := hinv.owes (places_pos_of_held hb) hpc
  have hdaemon := Session.daemon_of_guarded (fun _ _ => ⟨trivial, trivial⟩) hsession
  obtain ⟨i, hgiven, hmark⟩ := lastMark_of_held hinv hk hb
  have hlast := lastFill_of_owes hdaemon howes hmark
  have hring := ringOk_of_guarded (fun _ _ => ⟨trivial, trivial⟩) h
  obtain ⟨hlt, -⟩ := List.getElem?_eq_some_iff.mp hlast.1
  rw [← hring.length_eq] at hlt
  exact ⟨i, _, hgiven, (hring.last b _ hlast).trans (List.getElem?_eq_getElem hlt),
    List.getElem?_eq_getElem hlt⟩

/-- A client that joins after the first fill of block zero is given block one and then block zero.
It sees the packets of the second fill there. -/
theorem data_intact_late : ∃ s : State ⟨2, by decide⟩ Nat,
    (system ⟨2, by decide⟩ Nat 0 (T.onRing 2 [])).ReachableBy (Guarded Orderly) s ∧
    s.captured = [10, 20, 30] ∧ s.session.caller.given = [1, 0] ∧
    ∃ i packets, LastAt s.session.caller.given i 0 ∧ s.ring 0 = some packets ∧
      s.captured[1 + i]? = some packets := by
  have hrun : (((system ⟨2, by decide⟩ Nat 0 (T.onRing 2 [])).execBy (Guarded Orderly)
      (system ⟨2, by decide⟩ Nat 0 (T.onRing 2 [])).init
      (.fill 0 1 10 :: .fill 1 1 20 :: Session.joinLateRun.map .session ++
        .fill 0 1 30 :: Session.takeTwoRun.map .session)).map fun s =>
      ((s.captured, s.session.caller.given), joined 0 s.session.daemon.log,
        (s.session.caller.held 0).isSome, (s.session.daemon.conn 0).pc)) =
      some (([10, 20, 30], [1, 0]), 1, true, .select) := by
    decide +kernel
  obtain ⟨s, hexec, heq⟩ := Option.map_eq_some_iff.mp hrun
  simp only [Prod.mk.injEq] at heq
  obtain ⟨⟨hcaptured, hgiven⟩, hjoined, hheld, hpc⟩ := heq
  have hreach := System.ReachableBy.init.exec _ hexec
  have hdata := data_intact (by decide) (T.initiated_onRing (show 2 < 2 ^ 32 by decide) [])
    (by decide) hreach (b := 0) hheld (by rw [hpc]; rfl)
  rw [hjoined] at hdata
  exact ⟨s, hreach, hcaptured, hgiven, hdata⟩

end Testimony.Capture
