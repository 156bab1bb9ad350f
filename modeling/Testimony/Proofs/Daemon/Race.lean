import Testimony.Block
import Testimony.Lib.History
import Testimony.Proofs.Daemon.Exclusive

/-!
# `Testimony.Proofs.Daemon.Race`: `unref` against `ready`

`unref` drops the count of a block and clears its status in two steps. `ready` loads the count
and then the status, in two steps of another goroutine. When `getNewBlocks` has come round to
a block whose last holder stands between its two steps, it reads a count of zero and a status
that is about to be cleared. It takes the block a second time, and the late `clear` hands the
block to the kernel while `getNewBlocks`, `socket.run` or a client holds it
(`cleared_while_held`). The old fill has then been delivered twice (`dispatched_twice`).

Seen from one block, every step of the socket is a step of the protocol of `Testimony.Block`
(`Move.blockMove`), and the load of the status is its guarded action. `NoStaleLoad` states
the guard for the socket: in the runs that respect it a block with status zero has no holder
(`kernel_exclusion`), and fills and dispatches alternate (`fills_alternate`). No stale load is
harmless: two steps after it there is a block that is held and belongs to the kernel
(`stale_load_breaks`).
-/

set_option autoImplicit false

namespace Testimony.Daemon

open Lib

variable {k : Conf}

/-! ### Pending clears -/

/-- How many clears of block `b` are pending in `socket.run`. -/
def RunPc.clears (b : k.Index) : RunPc k → Nat
  | .clear b' _ => if b' = b then 1 else 0
  | _ => 0

/-- How many clears of block `b` are pending in a `conn.run`. -/
def ConnPc.clears (b : k.Index) : ConnPc k → Nat
  | .clear b' _ => if b' = b then 1 else 0
  | _ => 0

/-- The number of `unref`s of `b` that have dropped the count to zero and not yet cleared the
status. -/
def State.clears (s : State k) (b : k.Index) : Nat :=
  s.run.clears b + ∑ c ∈ Finset.range s.numConns, (s.conn c).pc.clears b

/-- `getNewBlocks` does not load the status of a block while a clear of it is pending. -/
def NoStaleLoad (s : State k) : Label k → Prop
  | .getNewBlocks _ =>
      match s.watcher with
      | .loadStatus b => s.clears b = 0
      | _ => True
  | _ => True

/-- Only a load of the status has to be looked at. -/
instance (s : State k) (l : Label k) : Decidable (NoStaleLoad s l) := by
  unfold NoStaleLoad
  split
  · split <;> infer_instance
  · infer_instance

/-! ### How the pending clears change -/

/-- A step of `socket.run` changes the pending clears as much as its own. -/
theorem clears_of_run (m n : Nat) {s s' : State k} {b : k.Index}
    (hnum : s'.numConns = s.numConns) (hconn : s'.conn = s.conn)
    (hrun : s'.run.clears b + m = s.run.clears b + n) : s'.clears b + m = s.clears b + n := by
  simp only [State.clears, hnum, hconn]
  omega

/-- A step of `socket.run` and one connection changes them as much as the two do. -/
theorem clears_of_conn (m n : Nat) {s s' : State k} {c : ConnId} {cn : Conn k} {b : k.Index}
    (hc : c < s.numConns) (hnum : s'.numConns = s.numConns)
    (hconn : s'.conn = Function.update s.conn c cn)
    (hown : s'.run.clears b + cn.pc.clears b + m
      = s.run.clears b + (s.conn c).pc.clears b + n) : s'.clears b + m = s.clears b + n := by
  have := sum_update (Finset.mem_range.mpr hc) s.conn cn fun _ cn => cn.pc.clears b
  simp only [State.clears, hnum, hconn]
  omega

/-- A clear in `socket.run` is pending. -/
theorem clears_pos_of_run {s : State k} {b : k.Index} {todo : Option (Finset ConnId)}
    (hpc : s.run = .clear b todo) : 0 < s.clears b := by
  simp [State.clears, hpc, RunPc.clears]

/-- A clear in a `conn.run` is pending. -/
theorem clears_pos_of_conn {s : State k} {c : ConnId} {b : k.Index} {next : Resume}
    (hc : c < s.numConns) (hpc : (s.conn c).pc = .clear b next) : 0 < s.clears b := by
  have hle := Finset.single_le_sum (f := fun c => (s.conn c).pc.clears b)
    (fun _ _ => Nat.zero_le _) (Finset.mem_range.mpr hc)
  have hpos : 0 < (s.conn c).pc.clears b := by simp [hpc, ConnPc.clears]
  exact Nat.lt_of_lt_of_le (Nat.lt_of_lt_of_le hpos hle) (Nat.le_add_left _ _)

/-- A new connection has nothing to clear. -/
theorem clears_register (s : State k) (b : k.Index) : (addNewConn s).clears b = s.clears b := by
  simp only [State.clears, addNewConn, Finset.sum_range_succ, Function.update_self]
  congr 1
  refine (Nat.add_zero _).trans (Finset.sum_congr rfl fun c hc => ?_)
  rw [Function.update_of_ne (Nat.ne_of_lt (Finset.mem_range.mp hc))]

/-- Apart from its `unref`, a step of `conn.run` neither starts nor ends a clear. -/
theorem Conn.RunMove.clears_eq {c : ConnId} {cn cn' : Conn k} {ch : ConnChoice}
    {es : List (Event k)}
    (hm : cn.RunMove c ch cn' es) (b : k.Index) : cn'.pc.clears b = cn.pc.clears b := by
  cases hm with
  | wrote hpc hn hle =>
      rw [hpc]
      dsimp only
      split <;> rfl
  | drainOld hpc hq => rfl
  | recvNew hpc _ | accept hpc _ _ | reject hpc _ _ | endOfReads hpc _ | mark hpc _
  | batchMore hpc _ | batchDone hpc _ | writeError hpc | close hpc | drainNew hpc _
  | drainNewDone hpc _ | drainOldDone hpc _ | sweepHit hpc _ | sweepMiss hpc _
  | sweepDone hpc _ =>
      rw [hpc]
      rfl

/-- Behind an `unref` `socket.run` has nothing to clear. -/
theorem RunPc.clears_resume (b' : k.Index) (todo : Option (Finset ConnId)) (b : k.Index) :
    (RunPc.resume b' todo).clears b = 0 := by
  cases todo <;> rfl

/-- Behind an `unref` a `conn.run` has nothing to clear. -/
theorem Resume.clears_pc (next : Resume) (b : k.Index) :
    (next.pc : ConnPc k).clears b = 0 := by
  cases next <;> rfl

/-! ### The socket from one block's point of view -/

/-- How far `getNewBlocks` is with block `b`. -/
def WatcherPc.phase (b : k.Index) : WatcherPc k → Block.Phase
  | .loadStatus b' => if b' = b then .loaded else .away
  | .ref b' => if b' = b then .taking else .away
  | .send b' => if b' = b then .sending else .away
  | _ => .away

/-- What the protocol of one block sees of the socket. -/
def State.block (s : State k) (b : k.Index) : Block where
  r := s.r b
  filled := decide (s.blockStatus b ≠ 0)
  clears := s.clears b
  phase := s.watcher.phase b

/-- The events that record an action of the protocol on block `b`. -/
def Logged (b : k.Index) : Block.Act → List (Event k) → Prop
  | .fill, es => es = [.fill b]
  | .dispatch, es => es = [.dispatch b]
  | .clear, es => es = [.clear b]
  | _, es => ∀ e ∈ es, e ≠ .fill b ∧ e ≠ .dispatch b ∧ e ≠ .clear b

/-- A step of the socket is a step of the protocol of block `b`. -/
def BlockMove (s s' : State k) (b : k.Index) : Prop :=
  ∃ act es, s'.log = s.log ++ es ∧ Logged b act es ∧ (s.block b).Step act (s'.block b) ∧
    (act = .load → s.watcher = .loadStatus b ∧ s'.watcher = .ref b)

/-- A step that does not concern block `b`. -/
theorem BlockMove.idle {s s' : State k} {es : List (Event k)} {b : k.Index}
    (hlog : s'.log = s.log ++ es)
    (hes : ∀ e ∈ es, e ≠ .fill b ∧ e ≠ .dispatch b ∧ e ≠ .clear b) (hr : s'.r b = s.r b)
    (hstatus : s'.blockStatus b = s.blockStatus b) (hclears : s'.clears b = s.clears b)
    (hphase : s'.watcher.phase b = s.watcher.phase b) : BlockMove s s' b := by
  have hblock : s'.block b = s.block b :=
    Block.ext hr (by simp [State.block, hstatus]) hclears hphase
  refine ⟨.silent, es, hlog, hes, ?_, nofun⟩
  rw [hblock]
  exact .idle

/-- A block held outside `getNewBlocks` is not being sent by it. -/
theorem Inv.phase_ne_sending {s : State k} (h : Inv s) {b : k.Index}
    (hheld : 0 < s.run.holds b + s.connTotal b) : s.watcher.phase b ≠ .sending := by
  intro hphase
  have hsend : s.watcher = .send b := by
    cases hw : s.watcher with
    | loadCount b' | wait b' =>
        rw [hw] at hphase
        cases hphase
    | loadStatus b' | ref b' =>
        rw [hw, WatcherPc.phase] at hphase
        split at hphase <;> cases hphase
    | send b' =>
        rw [hw, WatcherPc.phase] at hphase
        split at hphase
        · rename_i hb
          rw [hb]
        · cases hphase
  have h1 := h.exclusive.queued b (.inl hsend)
  have h2 := Queued.one_le (s := s) (.inl hsend)
  have h3 := h.counted b
  omega

/-- An atomic add by a party that holds the block. -/
theorem BlockMove.add {s s' : State k} (b' : k.Index) {d : Int} (h : Inv s)
    (hheld : 0 < s.run.holds b' + s.connTotal b') (hd : d = 1 ∨ d = -1)
    (hr : s'.r = (s.addInt32 b' d).r) (hstatus : s'.blockStatus = s.blockStatus)
    (hwatcher : s'.watcher = s.watcher) (hlog : s'.log = s.log)
    (hclears : ∀ b, s'.clears b = s.clears b + if b' = b ∧ s.r b' + d = 0 then 1 else 0)
    (b : k.Index) : BlockMove s s' b := by
  have hlog' : s'.log = s.log ++ [] := by rw [hlog, List.append_nil]
  have hc := hclears b
  by_cases hbb : b' = b
  · subst hbb
    have hphase := h.phase_ne_sending hheld
    have hpos : 0 < s.r b' := by
      have := h.counted b'
      omega
    have hr' : s'.r b' = s.r b' + d := by rw [hr, addInt32_r, if_pos rfl]
    have hst : s'.blockStatus b' = s.blockStatus b' := by rw [hstatus]
    refine ⟨.silent, [], hlog', nofun, ?_, nofun⟩
    -- One reference more, one less, or the last one gone and a store to come.
    rcases hd with rfl | rfl
    · rw [if_neg (by omega), Nat.add_zero] at hc
      have hblock : s'.block b' = { s.block b' with r := (s.block b').r + 1 } :=
        Block.ext hr' (by simp [State.block, hst]) hc (by simp [State.block, hwatcher])
      rw [hblock]
      exact .ref hphase hpos
    · by_cases hone : s.r b' = 1
      · rw [if_pos ⟨rfl, by omega⟩] at hc
        have hblock : s'.block b' =
            { s.block b' with r := 0, clears := (s.block b').clears + 1 } :=
          Block.ext (show s'.r b' = 0 by omega) (by simp [State.block, hst]) hc
            (by simp [State.block, hwatcher])
        rw [hblock]
        exact .unrefZero hphase hone
      · rw [if_neg (by omega), Nat.add_zero] at hc
        have hblock : s'.block b' = { s.block b' with r := (s.block b').r - 1 } :=
          Block.ext hr' (by simp [State.block, hst]) hc (by simp [State.block, hwatcher])
        rw [hblock]
        exact .unref hphase (show 1 < s.r b' by omega)
  · rw [if_neg fun hz => hbb hz.1, Nat.add_zero] at hc
    refine BlockMove.idle hlog' nofun ?_ (by rw [hstatus]) hc (by rw [hwatcher])
    rw [hr, addInt32_r, if_neg hbb, Int.add_zero]

/-- The store of a pending `clear`. -/
theorem BlockMove.clear {s s' : State k} {b' : k.Index} (hpending : 0 < s.clears b')
    (hr : s'.r = s.r) (hstatus : s'.blockStatus = (s.clear b').blockStatus)
    (hwatcher : s'.watcher = s.watcher) (hlog : s'.log = s.log ++ [.clear b'])
    (hclears : ∀ b, s'.clears b + (if b' = b then 1 else 0) = s.clears b) (b : k.Index) :
    BlockMove s s' b := by
  have hc := hclears b
  by_cases hbb : b' = b
  · subst hbb
    rw [if_pos rfl] at hc
    have hzero : s'.blockStatus b' = 0 := by
      rw [hstatus]
      exact Function.update_self _ _ _
    have hblock : s'.block b' =
        { s.block b' with filled := false, clears := (s.block b').clears - 1 } :=
      Block.ext (by simp [State.block, hr]) (by simp [State.block, hzero])
        (show s'.clears b' = s.clears b' - 1 by omega) (by simp [State.block, hwatcher])
    refine ⟨.clear, [.clear b'], hlog, rfl, ?_, nofun⟩
    rw [hblock]
    exact .clear hpending
  · rw [if_neg hbb, Nat.add_zero] at hc
    refine BlockMove.idle hlog ?_ (by rw [hr]) ?_ hc (by rw [hwatcher])
    · simp [hbb]
    · rw [hstatus]
      exact Function.update_of_ne (Ne.symm hbb) _ _

/-- The watcher goes on with block `b'`. The others see nothing of it. -/
theorem BlockMove.watcher {s : State k} (b' : k.Index) {pc : WatcherPc k} {act : Block.Act}
    (hact : act = .silent ∨ act = .load)
    (hstep : (s.block b').Step act { s.block b' with phase := pc.phase b' })
    (hload : act = .load → s.watcher = .loadStatus b' ∧ pc = .ref b')
    (hother : ∀ b, b' ≠ b → pc.phase b = s.watcher.phase b) (b : k.Index) :
    BlockMove s { s with watcher := pc } b := by
  by_cases hbb : b' = b
  · subst hbb
    refine ⟨act, [], (List.append_nil _).symm, ?_, hstep, hload⟩
    rcases hact with rfl | rfl <;> exact nofun
  · exact BlockMove.idle (List.append_nil _).symm nofun rfl rfl rfl (hother b hbb)

/-- Every move of the socket is a move of every block. -/
theorem Move.blockMove {s s' : State k} {l : Label k} (hm : Move s l s') (hinv : Inv s)
    (b : k.Index) :
    BlockMove s s' b := by
  cases hm with
  | fill hb hv =>
      rename_i b' v
      by_cases hbb : b' = b
      · subst hbb
        refine ⟨.fill, [.fill b'], rfl, rfl, ?_, by rintro ⟨⟩⟩
        have hblock : State.block { s with
            blockStatus := Function.update s.blockStatus b' v
            log := s.log ++ [.fill b'] } b' = { s.block b' with filled := true } :=
          Block.ext rfl (by simp [State.block, hv]) rfl rfl
        rw [hblock]
        exact .fill (by simp [State.block, hb])
      · exact BlockMove.idle rfl (by simp [hbb]) rfl (Function.update_of_ne (Ne.symm hbb) _ _)
          rfl rfl
  -- `getNewBlocks` goes on with one block. The others see nothing of it.
  | countZero hpc hr =>
      rename_i b'
      refine BlockMove.watcher b' (.inl rfl) ?_ (by rintro ⟨⟩) ?_ b
      · simpa [WatcherPc.phase] using
          Block.Step.loadCount (by simp [State.block, hpc, WatcherPc.phase]) hr
      · intro b hne
        simp [hpc, WatcherPc.phase, hne]
  | statusSet hpc hb =>
      rename_i b'
      refine BlockMove.watcher b' (.inr rfl) ?_ (fun _ => ⟨hpc, rfl⟩) ?_ b
      · simpa [WatcherPc.phase] using Block.Step.loadStatus
          (by simp [State.block, hpc, WatcherPc.phase]) (by simp [State.block, hb])
      · intro b hne
        simp [hpc, WatcherPc.phase, hne]
  | notReady hpc =>
      rename_i b'
      refine BlockMove.watcher b' (.inl rfl) (.leave ?_) (by rintro ⟨⟩) ?_ b
      · rcases hpc with hpc | hpc <;> simp [State.block, hpc, WatcherPc.phase]
      · intro b hne
        rcases hpc with hpc | hpc <;> simp [hpc, WatcherPc.phase, hne]
  | waited hpc =>
      rename_i b'
      refine BlockMove.watcher b' (.inl rfl) (.leave (.inl ?_)) (by rintro ⟨⟩) ?_ b
      · simp [State.block, hpc, WatcherPc.phase]
      · intro b hne
        simp [hpc, WatcherPc.phase]
  | ref hpc =>
      rename_i b'
      by_cases hbb : b' = b
      · subst hbb
        refine ⟨.silent, [], (List.append_nil _).symm, by rintro _ ⟨⟩, ?_, by rintro ⟨⟩⟩
        have hblock : State.block { s.addInt32 b' 1 with watcher := .send b' } b'
            = { s.block b' with r := (s.block b').r + 1, phase := .sending } :=
          Block.ext (by simp [State.block, State.addInt32]) rfl rfl
            (by simp [State.block, WatcherPc.phase])
        rw [hblock]
        exact .take (by simp [State.block, hpc, WatcherPc.phase])
      · refine BlockMove.idle (List.append_nil _).symm (by rintro _ ⟨⟩) ?_ rfl rfl ?_
        · exact Function.update_of_ne (Ne.symm hbb) _ _
        · simp [hpc, WatcherPc.phase, hbb]
  | dispatch hpc hq =>
      rename_i b' q
      by_cases hbb : b' = b
      · subst hbb
        refine ⟨.dispatch, [.dispatch b'], rfl, rfl, ?_, by rintro ⟨⟩⟩
        exact .dispatch (by simp [State.block, hpc, WatcherPc.phase])
      · refine BlockMove.idle rfl (by simp [hbb]) rfl rfl rfl ?_
        simp [hpc, WatcherPc.phase, hbb]
  -- Steps that change neither a count nor a status.
  | register _ =>
      exact BlockMove.idle rfl (by simp) rfl rfl (clears_register s b) rfl
  | oldConn hpc hc hold =>
      exact BlockMove.idle (List.append_nil _).symm (by rintro _ ⟨⟩) rfl rfl
        (clears_of_conn 0 0 hc (by rfl) (by rfl) (by rw [hpc, hold]; rfl)) rfl
  | take hpc _ =>
      exact BlockMove.idle rfl (by simp) rfl rfl
        (clears_of_run 0 0 (by rfl) (by rfl) (by rw [hpc]; rfl)) rfl
  | delete hpc | endRange hpc | skipped hpc _ =>
      exact BlockMove.idle (List.append_nil _).symm (by rintro _ ⟨⟩) rfl rfl
        (clears_of_run 0 0 (by rfl) (by rfl) (by rw [hpc]; rfl)) rfl
  | closeNewBlocks hpc hq =>
      obtain ⟨hc, -⟩ := hinv.life.retiring _ (.inl (by rw [hpc]; rfl))
      exact BlockMove.idle (List.append_nil _).symm (by rintro _ ⟨⟩) rfl rfl
        (clears_of_conn 0 0 hc (by rfl) (by rfl) (by rw [hpc]; rfl)) rfl
  | sent hpc hq =>
      have hc := hinv.life.lt_of_trySend hpc
      exact BlockMove.idle (List.append_nil _).symm (by rintro _ ⟨⟩) rfl rfl
        (clears_of_conn 0 0 hc (by rfl) (by rfl) (by rw [hpc]; rfl)) rfl
  -- The atomic adds. Whoever makes one holds the block, so its count was positive.
  | visit hpc hc =>
      rename_i b' c todo
      have hheld : 0 < s.run.holds b' := by simp [hpc, RunPc.holds]
      have hcount := hinv.counted b'
      refine BlockMove.add b' hinv (by omega) (.inl rfl) (by rfl) (by rfl) (by rfl) (by rfl) ?_ b
      intro b''
      rw [if_neg (by omega)]
      exact clears_of_run 0 0 (by rfl) (by rfl) (by rw [hpc]; rfl)
  | runUnref hpc hr =>
      rename_i b' todo
      have hheld : 0 < s.run.holds b' := hpc ▸ RunPc.unref_holds_pos b' todo
      refine BlockMove.add b' hinv (by omega) (.inr rfl) (by rfl) (by rfl) (by rfl) (by rfl) ?_ b
      intro b''
      rw [if_neg (by omega)]
      refine clears_of_run 0 0 (by rfl) (by rfl) ?_
      rw [hpc]
      exact RunPc.clears_resume b' todo b''
  | runUnrefZero hpc hr =>
      rename_i b' todo
      have hheld : 0 < s.run.holds b' := hpc ▸ RunPc.unref_holds_pos b' todo
      have hzero : s.r b' + -1 = 0 := by omega
      refine BlockMove.add b' hinv (by omega) (.inr rfl) (by rfl) (by rfl) (by rfl) (by rfl) ?_ b
      intro b''
      refine clears_of_run 0 _ (by rfl) (by rfl) ?_
      simp [hpc, hzero, RunPc.clears]
  | runClear hpc =>
      rename_i b' todo
      refine BlockMove.clear (clears_pos_of_run hpc) (by rfl) (by rfl) (by rfl) (by rfl) ?_ b
      intro b''
      refine clears_of_run _ 0 (by rfl) (by rfl) ?_
      show (RunPc.resume b' todo).clears b'' + _ = _
      rw [RunPc.clears_resume, hpc, Nat.zero_add]
      rfl
  | connUnref hc hpc hr =>
      rename_i c b' next
      have hheld := connTotal_pos hc hpc
      refine BlockMove.add b' hinv (by omega) (.inr rfl) (by rfl) (by rfl) (by rfl) (by rfl) ?_ b
      intro b''
      rw [if_neg (by omega)]
      refine clears_of_conn 0 0 hc (by rfl) (by rfl) ?_
      rw [hpc]
      show s.run.clears b'' + (next.pc : ConnPc k).clears b'' = _
      rw [Resume.clears_pc]
      rfl
  | connUnrefZero hc hpc hr =>
      rename_i c b' next
      have hheld := connTotal_pos hc hpc
      have hzero : s.r b' + -1 = 0 := by omega
      refine BlockMove.add b' hinv (by omega) (.inr rfl) (by rfl) (by rfl) (by rfl) (by rfl) ?_ b
      intro b''
      refine clears_of_conn 0 _ hc (by rfl) (by rfl) ?_
      simp [hpc, hzero, ConnPc.clears, State.addInt32, State.setPc, State.setConn]
  | connClear hc hpc =>
      rename_i c b' next
      refine BlockMove.clear (clears_pos_of_conn hc hpc) (by rfl) (by rfl) (by rfl) (by rfl) ?_ b
      intro b''
      refine clears_of_conn _ 0 hc (by rfl) (by rfl) ?_
      show s.run.clears b'' + (next.pc : ConnPc k).clears b'' + _ = _
      rw [Resume.clears_pc, hpc, Nat.add_zero]
      rfl
  -- Steps inside a connection.
  | connRun hc hmove =>
      refine BlockMove.idle rfl ?_ rfl rfl (clears_of_conn 0 0 hc (by rfl) (by rfl) ?_) rfl
      · cases hmove <;> simp
      · rw [hmove.clears_eq b]
        rfl
  | connReads hc hmove =>
      refine BlockMove.idle (List.append_nil _).symm (by rintro _ ⟨⟩) rfl rfl
        (clears_of_conn 0 0 hc (by rfl) (by rfl) ?_) rfl
      rw [hmove.frame.1]
      rfl

/-! ### Guarded runs -/

/-- Only `getNewBlocks` moves the watcher. -/
theorem Move.watcher_eq {s s' : State k} {l : Label k} (hm : Move s l s')
    (hl : ∀ errno, l ≠ .getNewBlocks errno) : s'.watcher = s.watcher := by
  cases hm with
  | countZero | statusSet | notReady | waited | ref | dispatch => exact absurd rfl (hl _)
  | _ => rfl

/-- A guarded step that finds a block ready has looked at no pending clear. -/
theorem NoStaleLoad.clears_eq_zero {s s' : State k} {l : Label k} (hG : NoStaleLoad s l)
    (hm : Move s l s') (b : k.Index) (hpc : s.watcher = .loadStatus b)
    (hpc' : s'.watcher = .ref b) : s.clears b = 0 := by
  by_cases hl : ∃ errno, l = .getNewBlocks errno
  · obtain ⟨errno, rfl⟩ := hl
    simpa only [NoStaleLoad, hpc] using hG
  · have := hm.watcher_eq fun errno he => hl ⟨errno, he⟩
    rw [hpc, hpc'] at this
    cases this

/-- At the start the kernel has every block, and nobody else holds one. -/
theorem block_initial (b : k.Index) : ((State.initial k).block b).Ok where
  nonneg := Int.le_refl 0
  free _ := rfl
  first h := by cases h
  pending h := by simp [State.block, State.clears, State.initial, RunPc.clears] at h
  held h := by simp [State.block, State.initial] at h
  taking h := by cases h

/-- In a guarded run every block keeps the invariant of its protocol. -/
theorem block_ok_of_guarded {s : State k} (h : (system k).ReachableBy NoStaleLoad s) :
    ∀ b, (s.block b).Ok := by
  refine System.ReachableBy.invariant (P := fun s => ∀ b, (s.block b).Ok) block_initial ?_ h
  intro s l s' hr hs hG hstep b
  have hinv := inv_of_reachable hr.reachable
  rcases hinv.step_cases hstep with hm | ⟨errno, -, -, rfl⟩
  · obtain ⟨act, es, -, -, hblock, hload⟩ := hm.blockMove hinv b
    refine hblock.ok (hs b) fun hact => ?_
    obtain ⟨hpc, hpc'⟩ := hload hact
    exact hG.clears_eq_zero hm b hpc hpc'
  · exact hs b

/-- A block with count zero is nowhere. -/
theorem Inv.free {s : State k} (h : Inv s) {b : k.Index} (hr : s.r b = 0) :
    s.watcher ≠ .send b ∧ b ∉ s.newBlocks.buf ∧ s.run.holds b = 0 ∧
      ∀ c, c < s.numConns → b ∉ (s.conn c).newBlocks.buf ∧ (s.conn c).pc.holds b = 0 ∧
        (s.conn c).owes b = false := by
  have hcount := h.counted b
  rw [hr] at hcount
  refine ⟨fun hw => ?_, fun hmem => ?_, by omega, fun c hc => ?_⟩
  · have := h.exclusive.queued b (.inl hw)
    omega
  · have := h.exclusive.queued b (.inr hmem)
    omega
  · have hle := holds_le_connTotal hc b
    have hholds : (s.conn c).holds b = 0 := by omega
    unfold Conn.holds at hholds
    refine ⟨List.count_eq_zero.mp (by omega), by omega, ?_⟩
    cases howes : (s.conn c).owes b with
    | false => rfl
    | true =>
        rw [howes, Bool.toNat_true] at hholds
        omega

/-- Without a client, `socket.run` has dropped the count of block `b` and not yet cleared it. -/
def droppedRun (b : k.Index) : List (Label k) :=
  .fill b 1 :: dispatchRun ++ [.run .newBlock, .run .go, .run .go]

/-- With one block, `getNewBlocks` comes round before `socket.run` has cleared the block. Then the
clear runs while `getNewBlocks` holds the block. -/
theorem cleared_while_held : ∃ s : State ⟨1, by decide⟩,
    (system ⟨1, by decide⟩).exec (State.initial _)
      (droppedRun 0 ++ [.getNewBlocks 0, .getNewBlocks 0, .getNewBlocks 0, .run .go]) = some s ∧
    s.blockStatus 0 = 0 ∧ s.r 0 = 1 ∧ s.watcher = .send 0 :=
  ⟨_, rfl, rfl, rfl, rfl⟩

/-- In a run without a stale load, a block whose status is zero has no holder: its count is
zero, `getNewBlocks` and `socket.run` do not hold it, and it is in no channel and outstanding
at no connection. A block that is about to be cleared has no holder either. -/
theorem kernel_exclusion {s : State k} (h : (system k).ReachableBy NoStaleLoad s)
    (b : k.Index) (hb : s.blockStatus b = 0 ∨ 0 < s.clears b) :
    s.r b = 0 ∧ s.holders b = 0 ∧ s.watcher ≠ .send b ∧ b ∉ s.newBlocks.buf ∧
      s.run.holds b = 0 ∧ ∀ c, c < s.numConns → b ∉ (s.conn c).newBlocks.buf ∧
        (s.conn c).pc.holds b = 0 ∧ (s.conn c).owes b = false := by
  have hinv := inv_of_reachable h.reachable
  have hok := block_ok_of_guarded h b
  have heq := hinv.r_eq_holders b
  have hr : s.r b = 0 := by
    rcases hb with hb | hb
    · exact (hok.of_empty (by simp [State.block, hb])).1
    · exact (hok.pending hb).2.1
  exact ⟨hr, by omega, hinv.free hr⟩

/-- The same block as in `cleared_while_held`, with the clear in time. -/
theorem kernel_exclusion_cleared : ∃ s : State ⟨1, by decide⟩,
    (system ⟨1, by decide⟩).execBy NoStaleLoad (State.initial _)
      (droppedRun 0 ++ [.getNewBlocks 0, .run .go, .getNewBlocks 0]) = some s ∧
    s.blockStatus 0 = 0 ∧ s.watcher = .wait 0 ∧ s.r 0 = 0 ∧ s.holders 0 = 0 := by
  obtain ⟨s, hs, hb, hw⟩ : ∃ s : State ⟨1, by decide⟩,
      (system ⟨1, by decide⟩).execBy NoStaleLoad (State.initial _)
        (droppedRun 0 ++ [.getNewBlocks 0, .run .go, .getNewBlocks 0]) = some s ∧
      s.blockStatus 0 = 0 ∧ s.watcher = .wait 0 :=
    ⟨_, rfl, rfl, rfl⟩
  have hfree := kernel_exclusion (System.ReachableBy.init.exec _ hs) 0 (.inl hb)
  exact ⟨s, hs, hb, hw, hfree.1, hfree.2.1⟩

/-- A pending clear is pending somewhere. -/
theorem clears_pos_cases {s : State k} {b : k.Index} (h : 0 < s.clears b) :
    (∃ todo, s.run = .clear b todo) ∨
      ∃ c next, c < s.numConns ∧ (s.conn c).pc = .clear b next := by
  by_cases hrun : s.run.clears b = 0
  · have hsum : ∑ c ∈ Finset.range s.numConns, (s.conn c).pc.clears b ≠ 0 := by
      unfold State.clears at h
      omega
    obtain ⟨c, hc, hne⟩ := Finset.exists_ne_zero_of_sum_ne_zero hsum
    right
    unfold ConnPc.clears at hne
    split at hne
    · rename_i b' next hpc
      have hbb : b' = b := by
        by_contra hne'
        exact hne (if_neg hne')
      exact ⟨c, next, Finset.mem_range.mp hc, hbb ▸ hpc⟩
    · exact absurd rfl hne
  · left
    unfold RunPc.clears at hrun
    split at hrun
    · rename_i b' todo hpc
      have hbb : b' = b := by
        by_contra hne'
        exact hrun (if_neg hne')
      exact ⟨todo, hbb ▸ hpc⟩
    · exact absurd rfl hrun

/-- `getNewBlocks` references a block that belongs to the kernel. -/
theorem ref_of_clear {s : State k} {b : k.Index} (hp : s.panic = none)
    (hpc : s.watcher = .ref b) (hstatus : s.blockStatus b = 0) (hr : s.r b = 0) :
    ∃ s', step s (.getNewBlocks 0) = some s' ∧ s'.blockStatus b = 0 ∧ s'.r b = 1 := by
  refine ⟨{ s.addInt32 b 1 with watcher := .send b }, ?_, hstatus, ?_⟩
  · simp [step, hp, getNewBlocksStep, hpc]
  · simp [State.addInt32, hr]

/-- Every stale load leads to a block that is held and belongs to the kernel: the status is
found set, the clear runs, the block is referenced. -/
theorem stale_load_breaks {s : State k} (h : (system k).ReachableBy NoStaleLoad s)
    (hp : s.panic = none) {b : k.Index} (hpc : s.watcher = .loadStatus b)
    (hc : 0 < s.clears b) : ∃ l s', (system k).exec s [.getNewBlocks 0, l, .getNewBlocks 0]
      = some s' ∧ s'.blockStatus b = 0 ∧ s'.r b = 1 := by
  obtain ⟨-, hr, hfilled, -⟩ := (block_ok_of_guarded h b).pending hc
  have hstatus : s.blockStatus b ≠ 0 := by simpa [State.block] using hfilled
  have hload : step s (.getNewBlocks 0) = some { s with watcher := .ref b } := by
    simp [step, hp, getNewBlocksStep, hpc, hstatus]
  -- The goroutine whose clear is pending moves next.
  obtain ⟨l, s₂, hclear, hp₂, hpc₂, hstatus₂, hr₂⟩ : ∃ l s₂,
      step { s with watcher := .ref b } l = some s₂ ∧ s₂.panic = none ∧
        s₂.watcher = .ref b ∧ s₂.blockStatus b = 0 ∧ s₂.r b = 0 := by
    rcases clears_pos_cases hc with ⟨todo, hrun⟩ | ⟨c, next, hc, hconn⟩
    · refine ⟨.run .go, { State.clear { s with watcher := .ref b } b with
        run := .resume b todo }, ?_, hp, rfl, ?_, hr⟩
      · simp [step, hp, runStep, hrun]
      · simp [State.clear]
    · refine ⟨.conn c .go, (State.clear { s with watcher := .ref b } b).setPc c next.pc, ?_,
        hp, rfl, ?_, hr⟩
      · simp [step, hp, connRunStep, hc, hconn]
      · simp [State.clear, State.setPc, State.setConn]
  obtain ⟨s', href, hres⟩ := ref_of_clear hp₂ hpc₂ hstatus₂ hr₂
  exact ⟨l, s', by simp [System.exec, system, hload, hclear, href], hres⟩

/-- Without a client, `socket.run` is about to clear the block while `getNewBlocks` looks at it. -/
theorem stale_load_breaks_unref : ∃ s : State ⟨1, by decide⟩,
    (system ⟨1, by decide⟩).execBy NoStaleLoad (State.initial _)
      (droppedRun 0 ++ [.getNewBlocks 0]) = some s ∧
    s.watcher = .loadStatus 0 ∧ s.clears 0 = 1 ∧
    ∃ l s', (system _).exec s [.getNewBlocks 0, l, .getNewBlocks 0] = some s' ∧
      s'.blockStatus 0 = 0 ∧ s'.r 0 = 1 := by
  obtain ⟨s, hs, hp, hpc, hclears⟩ : ∃ s : State ⟨1, by decide⟩,
      (system ⟨1, by decide⟩).execBy NoStaleLoad (State.initial _)
        (droppedRun 0 ++ [.getNewBlocks 0]) = some s ∧
      s.panic = none ∧ s.watcher = .loadStatus 0 ∧ s.clears 0 = 1 := ⟨_, rfl, rfl, rfl, rfl⟩
  exact ⟨s, hs, hpc, hclears, stale_load_breaks (System.ReachableBy.init.exec _ hs) hp hpc
    (by rw [hclears]; exact Nat.zero_lt_one)⟩

/-! ### Fills and dispatches -/

/-- The phase of block `b` that an event begins: `0` for a fill, `1` for a dispatch. -/
def Event.round (b : k.Index) : Event k → Option Nat
  | .fill b' => if b' = b then some 0 else none
  | .dispatch b' => if b' = b then some 1 else none
  | _ => none

/-- The fills and the dispatches of block `b`. -/
def rounds (b : k.Index) (log : List (Event k)) : List Nat := log.filterMap (Event.round b)

/-- Fills and dispatches are collected event by event. -/
theorem rounds_append (b : k.Index) (log es : List (Event k)) :
    rounds b (log ++ es) = rounds b log ++ rounds b es := List.filterMap_append

/-- When a block is cleared every fill of it has been dispatched. -/
def ClearedLate (b : k.Index) (before : List (Event k)) (e : Event k) : Prop :=
  e = .clear b → (rounds b before).length % 2 = 0

/-- The log and the protocol agree on whose turn it is. -/
structure InTurn (s : State k) (b : k.Index) : Prop where
  rotates : Rotates 2 (rounds b s.log)
  turn : (rounds b s.log).length % 2 = 1 ↔ (s.block b).Undelivered
  cleared : AtEach (ClearedLate b) s.log

/-- At the start no block has been filled or dispatched. -/
theorem inTurn_initial (b : k.Index) : InTurn (State.initial k) b where
  rotates := rotates_nil 2
  turn := by simp [rounds, State.initial, State.block, Block.Undelivered]
  cleared := atEach_nil _

/-- Events that record no action of block `b` leave its log alone. -/
theorem rounds_eq_nil {b : k.Index} {es : List (Event k)}
    (h : ∀ e ∈ es, e ≠ .fill b ∧ e ≠ .dispatch b ∧ e ≠ .clear b) : rounds b es = [] := by
  refine List.filterMap_eq_nil_iff.mpr fun e he => ?_
  obtain ⟨h1, h2, -⟩ := h e he
  cases e with
  | fill b' => exact if_neg fun hbb => h1 (by rw [hbb])
  | dispatch b' => exact if_neg fun hbb => h2 (by rw [hbb])
  | _ => rfl

/-- A step of the protocol keeps the turns. -/
theorem BlockMove.inTurn {s s' : State k} {b : k.Index} (hm : BlockMove s s' b)
    (hok : (s.block b).Ok) (h : InTurn s b) : InTurn s' b := by
  obtain ⟨act, es, hlog, hes, hstep, -⟩ := hm
  cases act with
  | fill =>
      cases hes
      obtain ⟨hu, hu'⟩ := hstep.fill_turn hok
      have heven : (rounds b s.log).length % 2 = 0 := by
        have := mt h.turn.mp hu
        omega
      have hrounds : rounds b s'.log = rounds b s.log ++ [0] := by
        rw [hlog, rounds_append]
        simp [rounds, Event.round]
      refine ⟨?_, ?_, ?_⟩
      · rw [hrounds]
        exact rotates_append_singleton h.rotates heven.symm
      · rw [hrounds, List.length_append, List.length_singleton]
        exact ⟨fun _ => hu', fun _ => by omega⟩
      · rw [hlog]
        exact atEach_append_singleton h.cleared nofun
  | dispatch =>
      cases hes
      obtain ⟨hu, hu'⟩ := hstep.dispatch_turn hok
      have hodd := h.turn.mpr hu
      have hrounds : rounds b s'.log = rounds b s.log ++ [1] := by
        rw [hlog, rounds_append]
        simp [rounds, Event.round]
      refine ⟨?_, ?_, ?_⟩
      · rw [hrounds]
        exact rotates_append_singleton h.rotates hodd.symm
      · rw [hrounds, List.length_append, List.length_singleton]
        exact ⟨fun hl => by omega, fun hd => absurd hd hu'⟩
      · rw [hlog]
        exact atEach_append_singleton h.cleared nofun
  | clear =>
      cases hes
      obtain ⟨hu, hu'⟩ := hstep.clear_turn
      have heven : (rounds b s.log).length % 2 = 0 := by
        have := mt h.turn.mp hu
        omega
      have hrounds : rounds b s'.log = rounds b s.log := by
        rw [hlog, rounds_append]
        simp [rounds, Event.round]
      refine ⟨?_, ?_, ?_⟩
      · rw [hrounds]
        exact h.rotates
      · rw [hrounds]
        exact ⟨fun hl => by omega, fun hd => absurd hd hu'⟩
      · rw [hlog]
        exact atEach_append_singleton h.cleared fun _ => heven
  | load | silent =>
      have hturn := hstep.other_turn hok (by simp)
      have hrounds : rounds b s'.log = rounds b s.log := by
        rw [hlog, rounds_append, rounds_eq_nil hes, List.append_nil]
      refine ⟨?_, ?_, ?_⟩
      · rw [hrounds]
        exact h.rotates
      · rw [hrounds, hturn]
        exact h.turn
      · rw [hlog]
        exact atEach_append_of_forall h.cleared fun e he _ hclear => absurd hclear (hes e he).2.2

/-- In every run without a stale load, the log and the state agree on whose turn it is. -/
theorem inTurn_of_guarded {s : State k} (h : (system k).ReachableBy NoStaleLoad s) :
    ∀ b, InTurn s b := by
  refine System.ReachableBy.invariant (P := fun s => ∀ b, InTurn s b) inTurn_initial ?_ h
  intro s l s' hr hs hG hstep b
  have hinv := inv_of_reachable hr.reachable
  rcases hinv.step_cases hstep with hm | ⟨errno, -, -, rfl⟩
  · exact (hm.blockMove hinv b).inTurn (block_ok_of_guarded hr b) (hs b)
  · exact ⟨(hs b).rotates, (hs b).turn, (hs b).cleared⟩

/-- One step after `cleared_while_held` the only fill has been dispatched twice. -/
theorem dispatched_twice : ∃ s : State ⟨1, by decide⟩,
    (system ⟨1, by decide⟩).exec (State.initial _)
      (droppedRun 0 ++ [.getNewBlocks 0, .getNewBlocks 0, .getNewBlocks 0, .run .go,
        .getNewBlocks 0]) = some s ∧
    rounds 0 s.log = [0, 1, 1] :=
  ⟨_, rfl, rfl⟩

/-- In a run without a stale load, fills and dispatches of a block alternate, beginning with a
fill, and a block is cleared only when every fill of it has been dispatched. -/
theorem fills_alternate {s : State k} (h : (system k).ReachableBy NoStaleLoad s)
    (b : k.Index) :
    Rotates 2 (rounds b s.log) ∧
    AtEach (fun before e => e = .clear b → (rounds b before).length % 2 = 0) s.log :=
  ⟨(inTurn_of_guarded h b).rotates, (inTurn_of_guarded h b).cleared⟩

/-- Two laps of a ring of one block, each clear in time. -/
theorem fills_alternate_two_laps : ∃ s : State ⟨1, by decide⟩,
    (system ⟨1, by decide⟩).execBy NoStaleLoad (State.initial _)
      (droppedRun 0 ++ [.run .go, .fill 0 1] ++ dispatchRun) = some s ∧
    rounds 0 s.log = [0, 1, 0, 1] ∧ Rotates 2 (rounds 0 s.log) := by
  obtain ⟨s, hs, hrounds⟩ : ∃ s : State ⟨1, by decide⟩,
      (system ⟨1, by decide⟩).execBy NoStaleLoad (State.initial _)
        (droppedRun 0 ++ [.run .go, .fill 0 1] ++ dispatchRun) = some s ∧
      rounds 0 s.log = [0, 1, 0, 1] :=
    ⟨_, rfl, rfl⟩
  exact ⟨s, hs, hrounds, (fills_alternate (System.ReachableBy.init.exec _ hs) 0).1⟩

end Testimony.Daemon
