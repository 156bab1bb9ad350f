import Testimony.Proofs.Daemon.Rest

/-!
# `Testimony.Proofs.Daemon.Contents`: which fill a client has

The kernel fills the ring block by block, `socket.run` takes the blocks in the same order, and a
connection is sent what is taken from its registration on. So the `i`-th index that `conn.run` marks
stands for a certain fill: the one with the number `joined c log + i`.

A block that the connection owes has not been filled again. Its last mark stands for the last fill
of the block (`lastFill_of_owes`), which is the one whose packets are in the ring.

While the connection is attached this can be read off the state: behind the mark the block is
nowhere, or its count would be too high. Later nothing is sent to the connection any more, and what
it still owes stays as it is.
-/

set_option autoImplicit false

namespace Testimony.Daemon

open Lib

variable {k : Conf} {s s' : State k} {c : ConnId} {b : k.Index}

/-! ### What is owed -/

/-- A connection that is not there yet owes nothing. -/
theorem lt_of_owes (h : (system k).Reachable s) (hb : (s.conn c).owes b = true) :
    c < s.numConns := by
  have htraced := traced_of_reachable h
  by_contra hc
  have hmem := (htraced.conn c).marked b (Bool.and_eq_true_iff.mp hb).1
  rw [(trace_nil (htraced.unborn c (Nat.not_lt.mp hc))).1] at hmem
  cases hmem

/-- The kernel writes to no block whose status is set. -/
theorem fill_eq_none (h : s.blockStatus b ≠ 0) (v : UInt32) :
    step s (.fill b v) = none := by
  simp [step, fillStep, h]

/-- A block some connection owes belongs to the daemon. -/
theorem held_of_owes (h : (system k).ReachableBy NoStaleLoad s) (hb : (s.conn c).owes b = true) :
    s.blockStatus b ≠ 0 ∧ 0 < s.r b := by
  have hr : s.r b ≠ 0 := fun hzero => by
    have := (((inv_of_reachable h.reachable).free hzero).2.2.2 c (lt_of_owes h.reachable hb)).2.2
    rw [hb] at this
    cases this
  have hok := block_ok_of_guarded h b
  have hpos : 0 < s.r b := by
    have hnonneg : 0 ≤ s.r b := hok.nonneg
    omega
  exact ⟨by simpa [State.block] using hok.held hpos, hpos⟩

/-- A block that is owed is not queued anywhere. -/
theorem Inv.not_queued_of_owes (h : Inv s) (hc : c < s.numConns) (hb : (s.conn c).owes b = true) :
    ¬ s.Queued b ∧ b ∉ (s.conn c).pc.hand ∧ b ∉ (s.conn c).newBlocks.buf ∧ b ∉ s.run.due c := by
  have hone := h.exclusive.once c b
  simp only [Conn.holds, hb, Bool.toNat_true] at hone
  refine ⟨fun hq => ?_, fun hhand => ?_, fun hbuf => ?_, fun hdue => ?_⟩
  · have hzero := h.exclusive.holds_eq_zero h.counted hq hc
    simp [Conn.holds, hb] at hzero
  · cases hpc : (s.conn c).pc with
    | record b' =>
        simp only [hpc, ConnPc.hand, List.mem_singleton] at hhand
        simp only [hpc, ConnPc.holds, hhand, if_true] at hone
        omega
    | _ => simp [hpc, ConnPc.hand] at hhand
  · have := List.count_pos_iff.mpr hbuf
    omega
  · unfold RunPc.due at hdue
    split at hdue
    · rename_i htarget
      have hzero := h.exclusive.targets b (by simpa using hdue) c htarget
      simp [Conn.holds, hb] at hzero
    · cases hdue

/-- Every fill of a block that is owed has been passed on. -/
theorem fills_count_of_owes (h : (system k).ReachableBy NoStaleLoad s)
    (hb : (s.conn c).owes b = true) : (fills s.log).count b ≤ (dispatches s.log).count b := by
  have hinv := inv_of_reachable h.reachable
  obtain ⟨-, hr⟩ := held_of_owes h hb
  refine Nat.not_lt.mp fun hlt => ?_
  obtain ⟨-, -, hzero | hphase⟩ := (count_fills h b).2.mp hlt
  · change s.r b = 0 at hzero
    omega
  · have hsend : s.watcher = .send b := by
      cases hpc : s.watcher with
      | send b' =>
          simp only [State.block, hpc, WatcherPc.phase] at hphase
          split at hphase
          · rename_i hbb
            rw [hbb]
          · cases hphase
      | loadStatus b' | ref b' =>
          simp only [State.block, hpc, WatcherPc.phase] at hphase
          split at hphase <;> cases hphase
      | loadCount b' | wait b' => simp [State.block, hpc, WatcherPc.phase] at hphase
    exact (hinv.not_queued_of_owes (lt_of_owes h.reachable hb) hb).1 (.inl hsend)

/-! ### Numbers -/

/-- How many blocks `socket.run` had taken when it registered connection `c`. -/
def joined (c : ConnId) (log : List (Event k)) : Nat :=
  (takes log).length - (takesSince c log).length

/-- The last time that a block was taken for a connection is the last time that it was taken at all.
Before it come the blocks that were taken before the client joined. -/
theorem lastAt_takes {i : Nat} {log : List (Event k)} (h : LastAt (takesSince c log) i b) :
    LastAt (takes log) (joined c log + i) b := by
  obtain ⟨pre, hpre⟩ := takesSince_suffix c log
  have hlen : joined c log = pre.length := by
    rw [joined, ← hpre, List.length_append, Nat.add_sub_cancel]
  rw [hlen, ← hpre]
  exact h.append_left pre

/-- While the connection is attached, behind the last mark of a block it owes there is nothing of
that block. -/
theorem lastFill_of_attached (h : (system k).ReachableBy Orderly s)
    (hatt : (s.conn c).pc.attached = true) (hb : (s.conn c).owes b = true) {i : Nat}
    (hi : LastAt (marks c s.log) i b) : LastAt (fills s.log) (joined c s.log + i) b := by
  have hguard : (system k).ReachableBy NoStaleLoad s := h.mono fun _ _ hG => hG.1
  have hc := lt_of_owes hguard.reachable hb
  obtain ⟨hqueued, hhand, hbuf, hdue⟩ :=
    (inv_of_reachable hguard.reachable).not_queued_of_owes hc hb
  have hsince : LastAt (takesSince c s.log) i b := by
    rw [← (fed_of_reachable hguard.reachable).fed c hc hatt, Conn.got]
    exact ((hi.append hhand).append hbuf).append hdue
  have hdispatches : LastAt (dispatches s.log) (joined c s.log + i) b := by
    rw [← (ordered_of_reachable hguard.reachable).queue]
    exact (lastAt_takes hsince).append fun hmem => hqueued (.inr hmem)
  exact hdispatches.of_prefix (dispatches_le_fills h) (fills_count_of_owes hguard hb)

/-! ### Behind the end of a connection -/

/-- A connection that is not attached marks nothing, and owes no more than before. -/
theorem Conn.RunMove.owes_of_detached {cn cn' : Conn k} {ch : ConnChoice} {es : List (Event k)}
    (hm : cn.RunMove c ch cn' es) (hatt : cn'.pc.attached = false) :
    marks c es = [] ∧ (cn'.owes b = true → cn.owes b = true) := by
  cases hm with
  | recvNew | accept | reject | endOfReads | mark | batchMore | batchDone | writeError | close =>
      cases hatt
  | wrote =>
      dsimp only at hatt
      split at hatt <;> cases hatt
  | drainNew hpc | drainNewDone hpc | drainOld hpc | drainOldDone hpc =>
      exact ⟨rfl, by simp [Conn.owes, ConnPc.unswept, hpc]⟩
  | sweepHit hpc | sweepMiss hpc =>
      refine ⟨rfl, ?_⟩
      simp only [Conn.owes, ConnPc.unswept, hpc, Bool.and_eq_true, decide_eq_true_eq]
      rintro ⟨hout, hle⟩
      exact ⟨hout, by omega⟩
  | sweepDone hpc => exact ⟨rfl, by simp [Conn.owes, ConnPc.unswept]⟩

/-- `unref` and `clear` leave alone what is owed. -/
theorem Resume.unswept_pc (next : Resume) (b b' : k.Index) :
    (next.pc : ConnPc k).unswept b = (ConnPc.unref b' next).unswept b ∧
    (ConnPc.clear b' next).unswept b = (ConnPc.unref b' next).unswept b := by
  cases next <;> exact ⟨rfl, rfl⟩

/-- What a step may do to a connection that is not attached behind it. -/
def OwesNoMore (c : ConnId) (b : k.Index) (s s' : State k) : Prop :=
  (s'.conn c).pc.attached = false →
    marks c s'.log = marks c s.log ∧ ((s'.conn c).owes b = true → (s.conn c).owes b = true)

/-- A step with events of the socket, or none. -/
theorem OwesNoMore.frame {es : List (Event k)} (hlog : s'.log = s.log ++ es)
    (hes : marks c es = []) (hconn : s'.conn = s.conn) : OwesNoMore c b s s' := by
  intro _
  rw [hlog, marks_append, hes, List.append_nil, hconn]
  exact ⟨rfl, id⟩

/-- A step of one connection. -/
theorem OwesNoMore.frame_conn {es : List (Event k)} {d : ConnId} {cn : Conn k}
    (hlog : s'.log = s.log ++ es) (hother : c ≠ d → marks c es = [])
    (hconn : s'.conn = Function.update s.conn d cn)
    (hown : cn.pc.attached = false →
      marks d es = [] ∧ (cn.owes b = true → (s.conn d).owes b = true)) :
    OwesNoMore c b s s' := by
  intro hatt
  rw [hlog, marks_append]
  by_cases hcd : c = d
  · subst hcd
    rw [hconn, Function.update_self] at hatt ⊢
    obtain ⟨hmarks, howes⟩ := hown hatt
    exact ⟨by rw [hmarks, List.append_nil], howes⟩
  · rw [hconn, Function.update_of_ne hcd, hother hcd, List.append_nil]
    exact ⟨rfl, id⟩

/-- A move that leaves a connection detached marks nothing for it, and gives it no block to owe. -/
theorem Move.owesNoMore {l : Label k} (hm : Move s l s') (c : ConnId) (b : k.Index) :
    OwesNoMore c b s s' := by
  cases hm with
  | fill _ _ | dispatch _ _ | take _ _ | runClear _ => exact .frame rfl rfl rfl
  | countZero _ _ | statusSet _ _ | notReady _ | waited _ | ref _ | delete _ | visit _ _
  | endRange _ | skipped _ _ | runUnref _ _ | runUnrefZero _ _ =>
      exact .frame (List.append_nil _).symm rfl rfl
  | register hpc => exact .frame_conn rfl (fun _ => rfl) rfl nofun
  | oldConn hpc hc hold =>
      refine .frame_conn (List.append_nil _).symm (fun _ => rfl) rfl fun _ => ⟨rfl, ?_⟩
      simp [Conn.owes, ConnPc.unswept, hold]
  | closeNewBlocks hpc hq | sent hpc hq =>
      exact .frame_conn (List.append_nil _).symm (fun _ => rfl) rfl fun _ => ⟨rfl, id⟩
  | @connUnref d b' next hc hpc hr =>
      refine .frame_conn (List.append_nil _).symm (fun _ => rfl) rfl fun _ => ⟨rfl, ?_⟩
      rw [Conn.owes, Conn.owes, hpc, ← (next.unswept_pc b b').1]
      exact id
  | @connUnrefZero d b' next hc hpc hr =>
      refine .frame_conn (List.append_nil _).symm (fun _ => rfl) rfl fun _ => ⟨rfl, ?_⟩
      rw [Conn.owes, Conn.owes, hpc, ← (next.unswept_pc b b').2]
      exact id
  | @connClear d b' next hc hpc =>
      have hlog : ((s.clear b').setPc d next.pc).log = s.log ++ [.clear b'] := rfl
      refine .frame_conn hlog (fun _ => rfl) rfl fun _ => ⟨rfl, ?_⟩
      rw [Conn.owes, Conn.owes, hpc, (next.unswept_pc b b').2, ← (next.unswept_pc b b').1]
      exact id
  | connRun hc hmove =>
      refine .frame_conn rfl (fun hcd => ?_) rfl hmove.owes_of_detached
      exact (trace_nil fun e he hec => hcd (hmove.events e he _ hec)).1
  | connReads hc hmove =>
      obtain ⟨hpc, -, hout, -⟩ := hmove.frame
      refine .frame_conn (List.append_nil _).symm (fun _ => rfl) rfl fun _ => ⟨rfl, ?_⟩
      rw [Conn.owes, Conn.owes, hpc, hout]
      exact id

/-- A block that is not the kernel's is not filled. -/
theorem Move.notMem_fills {l : Label k} (hm : Move s l s') (hinv : Inv s)
    (hb : s.blockStatus b ≠ 0) :
    ∃ es, s'.log = s.log ++ es ∧ b ∉ fills es := by
  obtain ⟨act, es, hlog, hlogged, hblock, -⟩ := hm.blockMove hinv b
  refine ⟨es, hlog, fun hmem => ?_⟩
  obtain ⟨e, he, hfill⟩ := List.mem_filterMap.mp hmem
  obtain rfl : e = .fill b := by
    cases e with
    | fill b' => rw [Option.some.inj hfill]
    | _ => cases hfill
  cases act with
  | fill =>
      generalize s'.block b = v at hblock
      cases hblock with
      | fill hempty => simp [State.block, hb] at hempty
  | dispatch | clear =>
      rw [hlogged] at he
      simp at he
  | load | silent => exact (hlogged _ he).1 rfl

/-- Once the connection is registered, its number does not change. -/
theorem joined_append {log es : List (Event k)} (hc : Event.register c ∈ log) :
    joined c (log ++ es) = joined c log := by
  have htakes : takes (log ++ es) = takes log ++ takes es := List.filterMap_append
  rw [joined, takesSince_append hc, htakes, List.length_append, List.length_append, joined]
  omega

/-- The last mark of a block that a connection owes stands for the last fill of the block. -/
theorem lastFill_of_owes (h : (system k).ReachableBy Orderly s) (hb : (s.conn c).owes b = true)
    {i : Nat} (hi : LastAt (marks c s.log) i b) :
    LastAt (fills s.log) (joined c s.log + i) b := by
  induction h generalizing i with
  | init => cases hi.1
  | @step s s' l hs hG hstep ih =>
      cases hatt : (s'.conn c).pc.attached with
      | true => exact lastFill_of_attached (.step hs hG hstep) hatt hb hi
      | false =>
          have hguard : (system k).ReachableBy NoStaleLoad s := hs.mono fun _ _ hG => hG.1
          have hinv := inv_of_reachable hguard.reachable
          rcases hinv.step_cases hstep with hm | ⟨errno, -, -, rfl⟩
          · -- The block was owed before, so this step is no fill of it.
            obtain ⟨hmarks, howes⟩ := hm.owesNoMore c b hatt
            have hb₀ := howes hb
            obtain ⟨es, hlog, hes⟩ := hm.notMem_fills hinv (held_of_owes hguard hb₀).1
            have hreg := (fed_of_reachable hguard.reachable).registered c
              (lt_of_owes hguard.reachable hb₀)
            rw [hmarks] at hi
            rw [hlog, joined_append hreg, fills_append]
            exact (ih hb₀ hi).append hes
          · exact ih hb hi

end Testimony.Daemon
