import Testimony.Lib.Update
import Testimony.Proofs.Daemon.Lifecycle

/-!
# `Testimony.Proofs.Daemon.Holders`: the count of a block is the number of its holders

`State.holders s b` counts who holds block `b`: `getNewBlocks` between `ref` and its send,
the entries of `s.newBlocks`, `socket.run` while it fans the block out, and every connection
that has not returned, for the entries of its `newBlocks`, for a block in its hands, and for
an outstanding one.

Inside a connection a reference only changes its place (`Conn.RunMove.holds_eq`), so the
count moves only where `ref` and `unref` do. `Counted` is the invariant that follows.
-/

set_option autoImplicit false

namespace Testimony.Daemon

open Lib

variable {k : Conf}

/-! ### Who holds a block -/

/-- `getNewBlocks` holds the block it has referenced and not yet sent. -/
def WatcherPc.holds (b : k.Index) : WatcherPc k → Nat
  | .send b' => if b' = b then 1 else 0
  | _ => 0

/-- `socket.run` holds its own reference while it fans a block out, and a second one from the
`ref` for a connection to the end of that send. -/
def RunPc.holds (b : k.Index) : RunPc k → Nat
  | .fanout b' _ => if b' = b then 1 else 0
  | .trySend b' _ _ => if b' = b then 2 else 0
  | .unref b' (some _) => if b' = b then 2 else 0
  | .unref b' none => if b' = b then 1 else 0
  | .clear b' (some _) => if b' = b then 1 else 0
  | _ => 0

/-- `conn.run` holds a block it has received and not yet recorded, and one it is about to
unref. -/
def ConnPc.holds (b : k.Index) : ConnPc k → Nat
  | .record b' => if b' = b then 1 else 0
  | .unref b' _ => if b' = b then 1 else 0
  | _ => 0

/-- The last loop of `conn.run` has not yet passed entry `b` of `outstanding`. The code does
not reset the entries it has unref'd. -/
def ConnPc.unswept (b : k.Index) : ConnPc k → Bool
  | .sweep i => decide (i ≤ b.val)
  | .unref _ (.sweep i) | .clear _ (.sweep i) => decide (i ≤ b.val)
  | .returned => false
  | _ => true

/-- Block `b` is outstanding at the connection: the client has it, or may have it. -/
def Conn.owes (cn : Conn k) (b : k.Index) : Bool := cn.outstanding b && cn.pc.unswept b

/-- The references a connection holds. -/
def Conn.holds (cn : Conn k) (b : k.Index) : Nat :=
  cn.newBlocks.buf.count b + cn.pc.holds b + (cn.owes b).toNat

/-- The connections whose `conn.run` has not returned. -/
def State.live (s : State k) : Finset ConnId :=
  (Finset.range s.numConns).filter fun c => (s.conn c).pc ≠ .returned

/-- The number of holders of block `b`. -/
def State.holders (s : State k) (b : k.Index) : Nat :=
  s.watcher.holds b + s.newBlocks.buf.count b + s.run.holds b +
    ∑ c ∈ s.live, (s.conn c).holds b

/-! ### Inside a connection -/

/-- A new connection holds nothing. -/
theorem Conn.holds_fresh (b : k.Index) : (Conn.fresh k).holds b = 0 := by
  simp [Conn.holds, Conn.fresh, ConnPc.holds, Conn.owes]

/-- A connection that has returned holds nothing. -/
theorem Conn.Ok.holds_returned {cn : Conn k} (h : cn.Ok) (hpc : cn.pc = .returned)
    (b : k.Index) : cn.holds b = 0 := by
  have hbuf := (h.drained (by rw [hpc]; rfl)).2
  simp [Conn.holds, Conn.owes, hbuf, hpc, ConnPc.holds, ConnPc.unswept]

/-- Receiving a block moves it from the channel to the hands of `conn.run`. -/
theorem count_recv {q q' : Chan k.Index k.numBlocks} {b' : k.Index} (hq : q.recv = .got b' q')
    (b : k.Index) : q.buf.count b = q'.buf.count b + if b' = b then 1 else 0 := by
  rw [(Chan.recv_eq_got hq).1, List.count_cons]
  simp

/-- A step inside a connection moves references and neither takes nor drops one. -/
theorem Conn.RunMove.holds_eq {c : ConnId} {cn cn' : Conn k} {ch : ConnChoice} {es : List (Event k)}
    (hm : cn.RunMove c ch cn' es) (b : k.Index) : cn'.holds b = cn.holds b := by
  cases hm with
  | recvNew hpc hq | batchMore hpc hq | drainNew hpc hq =>
      have hcount := count_recv hq b
      simp only [Conn.holds, Conn.owes, hpc, ConnPc.holds, ConnPc.unswept, hcount]
      omega
  | accept hpc hq hb =>
      rename_i b' q
      by_cases hbb : b' = b
      · subst hbb
        simp [Conn.holds, Conn.owes, hpc, hb, ConnPc.holds, ConnPc.unswept]
      · simp [Conn.holds, Conn.owes, hpc, hbb, Ne.symm hbb, ConnPc.holds, ConnPc.unswept]
  | mark hpc hb =>
      rename_i b'
      by_cases hbb : b' = b
      · subst hbb
        simp [Conn.holds, Conn.owes, hpc, hb, ConnPc.holds, ConnPc.unswept]
      · simp [Conn.holds, Conn.owes, hpc, hbb, Ne.symm hbb, ConnPc.holds, ConnPc.unswept]
  | wrote hpc hn hle =>
      simp only [Conn.holds, Conn.owes, hpc]
      split <;> rfl
  | drainOld hpc hq => rfl
  | sweepHit hpc hb =>
      rename_i b'
      -- Entry `b'` leaves the unswept part and goes into the hands of `conn.run`.
      by_cases hbb : b' = b
      · subst hbb
        simp [Conn.holds, Conn.owes, hpc, hb, ConnPc.holds, ConnPc.unswept]
      · have hne : b'.val ≠ b.val := fun h => hbb (Fin.ext h)
        have hle : b'.val + 1 ≤ b.val ↔ b'.val ≤ b.val := by omega
        simp [Conn.holds, Conn.owes, hpc, hbb, ConnPc.holds, ConnPc.unswept, hle]
  | sweepMiss hpc hb =>
      rename_i b'
      by_cases hbb : b' = b
      · subst hbb
        simp [Conn.holds, Conn.owes, hpc, hb, ConnPc.holds]
      · have hne : b'.val ≠ b.val := fun h => hbb (Fin.ext h)
        have hle : b'.val + 1 ≤ b.val ↔ b'.val ≤ b.val := by omega
        simp [Conn.holds, Conn.owes, hpc, ConnPc.holds, ConnPc.unswept, hle]
  | sweepDone hpc hi =>
      have hlt : ¬ _ ≤ b.val := Nat.not_le.mpr (Nat.lt_of_lt_of_le b.isLt hi)
      simp [Conn.holds, Conn.owes, hpc, ConnPc.holds, ConnPc.unswept, hlt]
  | reject hpc hq hv | endOfReads hpc hq | batchDone hpc hq | writeError hpc | close hpc
  | drainNewDone hpc hq | drainOldDone hpc hq =>
      simp [Conn.holds, Conn.owes, hpc, ConnPc.holds, ConnPc.unswept]

/-- A step of `handleReads` neither takes nor drops a reference. -/
theorem Conn.ReadsMove.holds_eq {cn cn' : Conn k} {inp : ReadInput} (hm : cn.ReadsMove inp cn')
    (b : k.Index) :
    cn'.holds b = cn.holds b := by
  obtain ⟨h1, h2, h3, -⟩ := hm.frame
  simp only [Conn.holds, Conn.owes, h1, h2, h3]

/-- The atomic add of `unref` gives up the block in hand, whether or not a `clear` follows. -/
theorem Conn.holds_unref {cn : Conn k} {b' : k.Index} {next : Resume} {pc : ConnPc k}
    (hpc : cn.pc = .unref b' next) (hnext : pc = next.pc ∨ pc = .clear b' next) (b : k.Index) :
    { cn with pc := pc }.holds b + (if b' = b then 1 else 0) = cn.holds b := by
  rcases hnext with rfl | rfl <;> cases next <;>
    simp [Conn.holds, Conn.owes, hpc, ConnPc.holds, ConnPc.unswept, Resume.pc] <;> omega

/-- The store of `clear` gives up nothing. -/
theorem Conn.holds_clear {cn : Conn k} {b' : k.Index} {next : Resume}
    (hpc : cn.pc = .clear b' next) (b : k.Index) :
    { cn with pc := next.pc }.holds b = cn.holds b := by
  cases next <;> simp [Conn.holds, Conn.owes, hpc, ConnPc.holds, ConnPc.unswept, Resume.pc]

/-! ### The socket -/

/-- The references held by connections. Connections that have returned hold none, so this
sums over all of them. -/
def State.connTotal (s : State k) (b : k.Index) : Nat :=
  ∑ c ∈ Finset.range s.numConns, (s.conn c).holds b

/-- The count of every block is the number of references to it. -/
def Counted (s : State k) : Prop :=
  ∀ b, s.r b = ((s.watcher.holds b + s.newBlocks.buf.count b + s.run.holds b +
    s.connTotal b : Nat) : Int)

/-- There are no references at the start. -/
theorem counted_initial (k : Conf) : Counted (State.initial k) := by
  intro b
  simp [State.initial, WatcherPc.holds, RunPc.holds, State.connTotal]

/-- `atomic.AddInt32` changes one count. -/
theorem addInt32_r (s : State k) (b' b : k.Index) (d : Int) :
    (s.addInt32 b' d).r b = s.r b + if b' = b then d else 0 := by
  unfold State.addInt32
  by_cases h : b' = b
  · subst h
    simp
  · simp [h, Ne.symm h]

/-- A change of one connection changes the sum by what that connection holds. -/
theorem connTotal_setConn {s : State k} {c : ConnId} (hc : c < s.numConns) (cn : Conn k)
    (b : k.Index) :
    (s.setConn c cn).connTotal b + (s.conn c).holds b = s.connTotal b + cn.holds b :=
  sum_update (Finset.mem_range.mpr hc) s.conn cn fun _ cn => cn.holds b

/-- A new connection adds nothing to the sum. -/
theorem connTotal_register (s : State k) (b : k.Index) :
    (addNewConn s).connTotal b = s.connTotal b := by
  simp only [State.connTotal, addNewConn, Finset.sum_range_succ, Function.update_self,
    Conn.holds_fresh, Nat.add_zero]
  exact Finset.sum_congr rfl fun c hc => by
    rw [Function.update_of_ne (Nat.ne_of_lt (Finset.mem_range.mp hc))]

/-- One connection holds no more than all of them. -/
theorem holds_le_connTotal {s : State k} {c : ConnId} (hc : c < s.numConns) (b : k.Index) :
    (s.conn c).holds b ≤ s.connTotal b :=
  le_sum (Finset.mem_range.mpr hc) s.conn fun _ cn => cn.holds b

/-- A connection in front of an `unref` holds the block. -/
theorem connTotal_pos {s : State k} {c : ConnId} {b : k.Index} {next : Resume}
    (hc : c < s.numConns) (hpc : (s.conn c).pc = .unref b next) : 0 < s.connTotal b := by
  have hheld : 0 < (s.conn c).holds b := by simp [Conn.holds, hpc, ConnPc.holds]
  exact Nat.lt_of_lt_of_le hheld (holds_le_connTotal hc b)

/-- `socket.run` in front of an `unref` holds the block. -/
theorem RunPc.unref_holds_pos (b : k.Index) (todo : Option (Finset ConnId)) :
    0 < (RunPc.unref b todo).holds b := by
  cases todo <;> simp [RunPc.holds]

/-- The connections that have returned make no difference to the sum. -/
theorem Lifecycle.sum_live {s : State k} (h : Lifecycle s) (b : k.Index) :
    ∑ c ∈ s.live, (s.conn c).holds b = s.connTotal b := by
  unfold State.live State.connTotal
  refine Finset.sum_filter_of_ne fun c _ hne hpc => hne ?_
  exact (h.ok c).holds_returned hpc b

/-- A step that leaves the connections' holdings alone, and changes the count by what
`getNewBlocks`, `s.newBlocks` and `socket.run` gain, keeps the count exact. -/
theorem Counted.frame {s s' : State k} (h : Counted s) (δ : k.Index → Int)
    (hconn : ∀ b, s'.connTotal b = s.connTotal b) (hr : ∀ b, s'.r b = s.r b + δ b)
    (hheld : ∀ b, ((s'.watcher.holds b + s'.newBlocks.buf.count b + s'.run.holds b : Nat) : Int) =
      ((s.watcher.holds b + s.newBlocks.buf.count b + s.run.holds b : Nat) : Int) + δ b) :
    Counted s' := by
  intro b
  have h1 := h b
  have h2 := hheld b
  rw [hconn b, hr b]
  push_cast at h1 h2 ⊢
  omega

/-- A step of one connection that changes the count by what the connection, the channel and
`socket.run` gain. -/
theorem Counted.frame_conn {s s' : State k} {c : ConnId} {cn : Conn k} (h : Counted s)
    (δ : k.Index → Int) (hc : c < s.numConns) (hnum : s'.numConns = s.numConns)
    (hconn : s'.conn = Function.update s.conn c cn) (hwatcher : s'.watcher = s.watcher)
    (hnew : s'.newBlocks = s.newBlocks) (hr : ∀ b, s'.r b = s.r b + δ b)
    (hheld : ∀ b, ((s'.run.holds b + cn.holds b : Nat) : Int) =
      ((s.run.holds b + (s.conn c).holds b : Nat) : Int) + δ b) : Counted s' := by
  intro b
  have h1 := h b
  have h2 := hheld b
  have h3 : s'.connTotal b + (s.conn c).holds b = s.connTotal b + cn.holds b := by
    have := connTotal_setConn hc cn b
    simpa only [State.connTotal, State.setConn, hnum, hconn] using this
  simp only [hwatcher, hnew, hr b]
  push_cast at h1 h2 ⊢
  omega

/-- A send adds the block to the channel. -/
theorem count_sent {q q' : Chan k.Index k.numBlocks} {b' : k.Index} (hq : q.send b' = .sent q')
    (b : k.Index) : q'.buf.count b = q.buf.count b + if b' = b then 1 else 0 := by
  rw [(Chan.send_eq_sent hq).2.2, List.count_append, List.count_singleton]
  simp

/-- Behind its `unref` `socket.run` has one reference less. -/
theorem RunPc.holds_resume (b' : k.Index) (todo : Option (Finset ConnId)) (b : k.Index) :
    (RunPc.resume b' todo).holds b + (if b' = b then 1 else 0) = (RunPc.unref b' todo).holds b ∧
    (RunPc.clear b' todo).holds b = (RunPc.resume b' todo).holds b := by
  cases todo <;> simp only [RunPc.resume, RunPc.holds] <;> split <;> simp

/-- Every move keeps the count exact. -/
theorem Move.counted {s s' : State k} {l : Label k} (hm : Move s l s') (hl : Lifecycle s)
    (h : Counted s) :
    Counted s' := by
  cases hm with
  | fill _ _ => exact h
  | countZero hpc _ | statusSet hpc _ | waited hpc =>
      exact h.frame 0 (fun _ => rfl) (fun b => by simp) fun b => by simp [hpc, WatcherPc.holds]
  | notReady hpc =>
      refine h.frame 0 (fun _ => rfl) (fun b => by simp) fun b => ?_
      rcases hpc with hpc | hpc <;> simp [hpc, WatcherPc.holds]
  | ref hpc =>
      refine h.frame _ (fun _ => rfl) (fun b => addInt32_r s _ b 1) fun b => ?_
      simp only [hpc, WatcherPc.holds, State.addInt32]
      split <;> push_cast <;> omega
  -- The block goes from the hands of `getNewBlocks` into the channel.
  | dispatch hpc hq =>
      refine h.frame 0 (fun _ => rfl) (fun b => by simp) fun b => ?_
      simp only [hpc, WatcherPc.holds, count_sent hq b, Pi.zero_apply]
      push_cast
      omega
  | register hpc =>
      exact h.frame 0 (connTotal_register s) (fun b => by simp [addNewConn])
        fun b => by simp [addNewConn]
  | oldConn hpc hc hold =>
      refine h.frame_conn 0 hc rfl rfl rfl rfl (fun b => by simp [State.setPc, State.setConn]) ?_
      intro b
      simp [hpc, RunPc.holds, Conn.holds, Conn.owes, hold, ConnPc.holds, ConnPc.unswept]
  | take hpc hq =>
      refine h.frame 0 (fun _ => rfl) (fun b => by simp) fun b => ?_
      simp only [hpc, RunPc.holds, count_recv hq b, Pi.zero_apply]
      push_cast
      omega
  | closeNewBlocks hpc hq =>
      obtain ⟨hc, -⟩ := hl.retiring _ (.inl (by rw [hpc]; rfl))
      refine h.frame_conn 0 hc rfl rfl rfl rfl (fun b => by simp [State.setConn]) fun b => ?_
      simp [hpc, RunPc.holds, Conn.holds, Conn.owes, (Chan.close_eq_some hq).2.2]
  | delete hpc | endRange hpc | skipped hpc _ =>
      exact h.frame 0 (fun _ => rfl) (fun b => by simp) fun b => by simp [hpc, RunPc.holds]
  -- A reference for the connection that is tried next. It is sent along with the block.
  | visit hpc hc =>
      refine h.frame _ (fun _ => rfl) (fun b => addInt32_r s _ b 1) fun b => ?_
      simp only [hpc, RunPc.holds, State.addInt32]
      split <;> push_cast <;> omega
  | sent hpc hq =>
      rename_i b' c todo q
      refine h.frame_conn 0 (hl.lt_of_trySend hpc) rfl rfl rfl rfl
        (fun b => by simp [State.setConn]) fun b => ?_
      simp only [hpc, RunPc.holds, Conn.holds, Conn.owes, count_sent hq b, Pi.zero_apply]
      split <;> push_cast <;> omega
  -- A reference less, together with the one that held it. A `clear` afterwards holds nothing.
  | runUnref hpc hr =>
      rename_i b' todo
      refine h.frame _ (fun _ => rfl) (fun b => addInt32_r s b' b (-1)) fun b => ?_
      have hres := (RunPc.holds_resume b' todo b).1
      simp only [hpc, State.addInt32, ← hres]
      split <;> push_cast <;> omega
  | runUnrefZero hpc hr =>
      rename_i b' todo
      refine h.frame _ (fun _ => rfl) (fun b => addInt32_r s b' b (-1)) fun b => ?_
      obtain ⟨hres, hclear⟩ := RunPc.holds_resume b' todo b
      simp only [hpc, State.addInt32, hclear, ← hres]
      split <;> push_cast <;> omega
  | runClear hpc =>
      rename_i b' todo
      refine h.frame 0 (fun _ => rfl) (fun b => by simp [State.clear]) fun b => ?_
      simp only [hpc, State.clear, (RunPc.holds_resume b' todo b).2, Pi.zero_apply]
      omega
  | connUnref hc hpc hr =>
      refine h.frame_conn _ hc rfl rfl rfl rfl (fun b => addInt32_r s _ b (-1)) fun b => ?_
      have hun := Conn.holds_unref hpc (.inl rfl) b
      simp only [State.setPc, State.setConn, State.addInt32, ← hun]
      split <;> push_cast <;> omega
  | connUnrefZero hc hpc hr =>
      refine h.frame_conn _ hc rfl rfl rfl rfl (fun b => addInt32_r s _ b (-1)) fun b => ?_
      have hun := Conn.holds_unref hpc (.inr rfl) b
      simp only [State.setPc, State.setConn, State.addInt32, ← hun]
      split <;> push_cast <;> omega
  | connClear hc hpc =>
      refine h.frame_conn 0 hc rfl rfl rfl rfl
        (fun b => by simp [State.clear, State.setPc, State.setConn]) fun b => ?_
      simp [State.clear, State.setPc, State.setConn, Conn.holds_clear hpc b]
  | connRun hc hmove =>
      refine h.frame_conn 0 hc rfl rfl rfl rfl
        (fun b => by simp [State.record, State.setConn]) fun b => ?_
      simp [State.record, State.setConn, hmove.holds_eq b]
  | connReads hc hmove =>
      refine h.frame_conn 0 hc rfl rfl rfl rfl (fun b => by simp [State.setConn]) fun b => ?_
      simp [State.setConn, hmove.holds_eq b]

end Testimony.Daemon
