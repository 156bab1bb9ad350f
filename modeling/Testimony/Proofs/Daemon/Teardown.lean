import Testimony.Proofs.Daemon.Exclusive

/-!
# `Testimony.Proofs.Daemon.Teardown`: how a connection comes to its end

After its main loop `conn.run` closes the client's socket, hands itself to `socket.run` on
the unbuffered `oldConns`, drains `c.newBlocks` until `socket.run` has closed it, drains
`c.oldBlocks` until `handleReads` has closed it, and unrefs what is still outstanding. Each
of these waits for another goroutine, and `teardown_safe` says that the one waited for can
always move.

`conn.run` can return between the two statements of `socket.run` that follow a receive on
`oldConns`, `close(c.newBlocks)` and `delete(s.currentConns, c)`. A connection that has
returned is therefore gone from `currentConns` or about to go
(`returned_in_currentConns`).
-/

set_option autoImplicit false

namespace Testimony.Daemon

open Lib

variable {k : Conf}

/-! ### Where the shutdown part begins -/

/-- `conn.run` has left its main loop and not yet returned. -/
def ConnPc.shutdown : ConnPc k → Bool
  | .close | .sendOld | .drainNew | .drainOld | .sweep _ => true
  | .unref _ next | .clear _ next => decide (next ≠ .select)
  | _ => false

/-- `conn.run` has called `c.c.Close()`. -/
def ConnPc.hungUp : ConnPc k → Bool
  | .sendOld | .drainNew | .drainOld | .sweep _ | .returned => true
  | .unref _ next | .clear _ next => decide (next ≠ .select)
  | _ => false

/-- The client's socket is closed once `conn.run` is past the call that closes it. -/
def HungUp (s : State k) : Prop :=
  ∀ c, (s.conn c).pc.hungUp = true → (s.conn c).closed = true

/-- A step of `conn.run` leads behind the close only through the close. -/
theorem Conn.RunMove.hungUp {c : ConnId} {cn cn' : Conn k} {ch : ConnChoice} {es : List (Event k)}
    (hm : cn.RunMove c ch cn' es) (h : cn.pc.hungUp = true → cn.closed = true) :
    cn'.pc.hungUp = true → cn'.closed = true := by
  cases hm with
  | recvNew _ _ | reject _ _ _ | endOfReads _ _ | mark _ _ | batchMore _ _ | batchDone _ _
  | writeError _ => nofun
  | accept _ _ _ => exact nofun
  | wrote _ _ _ =>
      intro hup
      dsimp only at hup
      split at hup <;> cases hup
  | close _ => exact fun _ => rfl
  | drainNew hpc _ | drainNewDone hpc _ | drainOld hpc _ | drainOldDone hpc _ | sweepHit hpc _
  | sweepMiss hpc _ | sweepDone hpc _ =>
      -- These start where the socket is closed already, and leave it so.
      exact fun _ => h (by rw [hpc]; rfl)

/-- A step that only lets one connection go on keeps the sockets closed that were. -/
theorem HungUp.setConn {s : State k} (h : HungUp s) {c : ConnId} {cn : Conn k}
    (hcn : cn.pc.hungUp = true → cn.closed = true) (d : ConnId) :
    (Function.update s.conn c cn d).pc.hungUp = true →
      (Function.update s.conn c cn d).closed = true := by
  by_cases hd : d = c
  · subst hd
    rwa [Function.update_self]
  · rw [Function.update_of_ne hd]
    exact h d

/-- A step leaves the sockets closed that should be. -/
theorem Move.hungUp {s s' : State k} {l : Label k} (hm : Move s l s') (h : HungUp s) :
    HungUp s' := by
  cases hm with
  | fill _ _ | countZero _ _ | statusSet _ _ | notReady _ | waited _ | ref _ | dispatch _ _
  | take _ _ | delete _ | visit _ _ | endRange _ | skipped _ _ | runUnref _ _
  | runUnrefZero _ _ | runClear _ => exact h
  | register _ => exact h.setConn nofun
  | oldConn _ _ hold => exact h.setConn fun _ => h _ (by rw [hold]; rfl)
  | closeNewBlocks _ _ | sent _ _ => exact h.setConn (h _)
  | connUnref hc hpc hr | connUnrefZero hc hpc hr | connClear hc hpc =>
      rename_i c b next
      refine h.setConn fun hup => h c ?_
      rw [hpc]
      cases next <;> exact hup
  | connRun _ hmove => exact h.setConn (hmove.hungUp (h _))
  | connReads _ hmove =>
      refine h.setConn ?_
      cases hmove <;> exact h _

/-- In every state of the daemon a connection that is behind its close is closed. -/
theorem hungUp_of_reachable {s : State k} (h : (system k).Reachable s) : HungUp s :=
  invariant_of_move (P := HungUp) nofun (fun _ _ hs => hs) (fun _ _ _ _ hs hm => hm.hungUp hs) h

/-! ### Who can move -/

/-- The steps that the `conn.run` of connection `c` may be waiting for where it stands. One of its
own always counts. While it offers itself on `oldConns`, `socket.run` has to receive it there, or to
get on with what it does outside its `select`. While it drains `c.newBlocks`, `socket.run` has to
close that channel. While it drains `c.oldBlocks`, its `handleReads` has to go on, whose `Read`
fails, since the socket is closed. -/
def State.Awaits (s : State k) (c : ConnId) : Label k → Prop
  | .conn d _ => d = c
  | .run ch =>
      (s.conn c).pc = .sendOld ∧ (s.run = .select → ch = .oldConn c) ∨
      (s.conn c).pc = .drainNew ∧ s.run = .closeNewBlocks c
  | .reads d inp =>
      d = c ∧ inp = .error ∧ (s.conn c).pc = .drainOld ∧ (s.conn c).closed = true
  | _ => False

/-- While the process lives, `socket.run` takes its own step. -/
theorem step_run {s : State k} (hp : s.panic = none) (ch : RunChoice) :
    step s (.run ch) = runStep s ch := by
  simp [step, hp]

/-- While the process lives, and outside `unref`, a `conn.run` takes its own step. -/
theorem step_conn {s : State k} (hp : s.panic = none) {c : ConnId} (hc : c < s.numConns)
    (hpc : ∀ b next, (s.conn c).pc ≠ .unref b next ∧ (s.conn c).pc ≠ .clear b next)
    (ch : ConnChoice) :
    step s (.conn c ch) = ((s.conn c).runStep c ch).map (s.apply c) := by
  simp only [step, hp, Option.isSome_none, Bool.false_eq_true, if_false, connRunStep, hc, if_true]
  split
  · exact absurd ‹_› (hpc _ _).1
  · exact absurd ‹_› (hpc _ _).2
  · rfl

/-- While the process lives, a `handleReads` takes its own step. -/
theorem step_reads {s : State k} (hp : s.panic = none) {c : ConnId} (hc : c < s.numConns)
    (inp : ReadInput) :
    step s (.reads c inp) = ((s.conn c).handleReadsStep inp).map (s.apply c) := by
  simp [step, hp, handleReadsStep, hc]

/-- Outside its `select`, `socket.run` never blocks. -/
theorem run_enabled {s : State k} (hp : s.panic = none) (hsel : s.run ≠ .select) :
    ∃ ch, (step s (.run ch)).isSome = true := by
  simp only [step_run hp]
  cases hrun : s.run with
  | select => exact absurd hrun hsel
  | closeNewBlocks c =>
      refine ⟨.go, ?_⟩
      simp only [runStep, hrun]
      split <;> rfl
  | delete c => exact ⟨.go, by simp [runStep, hrun]⟩
  | fanout b todo =>
      rcases Finset.eq_empty_or_nonempty todo with rfl | ⟨c, hc⟩
      · exact ⟨.go, by simp [runStep, hrun]⟩
      · exact ⟨.visit c, by simp [runStep, hrun, hc]⟩
  | trySend b c todo =>
      refine ⟨.go, ?_⟩
      simp only [runStep, hrun]
      split <;> rfl
  | unref b todo => exact ⟨.go, by simp [runStep, hrun]⟩
  | clear b todo => exact ⟨.go, by simp [runStep, hrun]⟩

/-- A connection that offers itself on `oldConns` waits for `socket.run`. In its `select` that can
receive the connection, and elsewhere it does not block. -/
theorem sendOld_enabled {s : State k} {c : ConnId} (hp : s.panic = none) (hc : c < s.numConns)
    (hpc : (s.conn c).pc = .sendOld) :
    ∃ ch, (s.run = .select → ch = .oldConn c) ∧ (step s (.run ch)).isSome = true := by
  by_cases hsel : s.run = .select
  · exact ⟨.oldConn c, fun _ => rfl, by simp [step_run hp, runStep, hsel, hc, hpc]⟩
  · obtain ⟨ch, hch⟩ := run_enabled hp hsel
    exact ⟨ch, fun h => absurd h hsel, hch⟩

/-- A connection that drains `c.newBlocks` finds a block, finds it closed, or waits for
`socket.run`, whose next statement closes it. -/
theorem Lifecycle.drainNew_enabled {s : State k} {c : ConnId} (h : Lifecycle s)
    (hp : s.panic = none) (hc : c < s.numConns) (hpc : (s.conn c).pc = .drainNew) :
    (step s (.conn c .go)).isSome = true ∨
      (s.run = .closeNewBlocks c ∧ (step s (.run .go)).isSome = true) := by
  rw [step_conn hp hc (by simp [hpc])]
  cases hq : (s.conn c).newBlocks.recv with
  | got b q => exact .inl (by simp [hpc, Conn.runStep, hq])
  | closed => exact .inl (by simp [hpc, Conn.runStep, hq])
  | empty =>
      have hopen := (Chan.recv_eq_empty.mp hq).2
      rcases (h.open_iff c).mp hopen with hatt | hclosing
      · rw [hpc] at hatt
        cases hatt
      · have hrun := RunPc.eq_of_closing hclosing
        refine .inr ⟨hrun, ?_⟩
        rw [step_run hp]
        simp only [runStep, hrun]
        split <;> rfl

/-- A connection that drains `c.oldBlocks` finds a value, finds it closed, or waits for
`handleReads`, which has room to post and whose `Read` fails. -/
theorem Lifecycle.drainOld_enabled {s : State k} {c : ConnId} (h : Lifecycle s)
    (hp : s.panic = none) (hc : c < s.numConns) (hpc : (s.conn c).pc = .drainOld) :
    (step s (.conn c .go)).isSome = true ∨ (step s (.reads c .error)).isSome = true := by
  rw [step_conn hp hc (by simp [hpc]), step_reads hp hc]
  cases hq : (s.conn c).oldBlocks.recv with
  | got v q => exact .inl (by simp [hpc, Conn.runStep, hq])
  | closed => exact .inl (by simp [hpc, Conn.runStep, hq])
  | empty =>
      obtain ⟨hbuf, hopen⟩ := Chan.recv_eq_empty.mp hq
      right
      cases hreads : (s.conn c).reads with
      | read => simp [Conn.handleReadsStep, hreads]
      | value n => simp [Conn.handleReadsStep, hreads]
      | post v =>
          -- An empty channel of positive capacity takes the value.
          cases hsend : (s.conn c).oldBlocks.send v with
          | sent q => simp [Conn.handleReadsStep, hreads, hsend]
          | full =>
              have hfull := Chan.send_eq_full hsend
              have hpos := k.numBlocks_pos
              rw [hbuf, List.length_nil] at hfull
              omega
          | panic => simp [Conn.handleReadsStep, hreads, hsend]
      | closeOldBlocks =>
          simp only [Conn.handleReadsStep, hreads, Option.isSome_map]
          split <;> rfl
      | done =>
          have hclosed := (h.ok c).done_iff.mp hreads
          rw [hopen] at hclosed
          cases hclosed

/-- In its shutdown part a connection can move, or a goroutine it waits for can. -/
theorem shutdown_enabled {s : State k} (h : (system k).Reachable s) (hp : s.panic = none)
    {c : ConnId} (hc : c < s.numConns) (hpc : (s.conn c).pc.shutdown = true) :
    ∃ l, s.Awaits c l ∧ (step s l).isSome = true := by
  have hlife := (inv_of_reachable h).life
  cases hcn : (s.conn c).pc with
  | select | record _ | batch | write _ | returned =>
      rw [hcn] at hpc
      cases hpc
  | close =>
      refine ⟨.conn c .go, rfl, ?_⟩
      rw [step_conn hp hc (by simp [hcn])]
      simp [hcn, Conn.runStep]
  | unref b next | clear b next =>
      exact ⟨.conn c .go, rfl, by simp [step, hp, connRunStep, hc, hcn]⟩
  -- `socket.run` has to receive, and later to close `newBlocks`.
  | sendOld =>
      obtain ⟨ch, hold, hch⟩ := sendOld_enabled hp hc hcn
      exact ⟨.run ch, .inl ⟨hcn, hold⟩, hch⟩
  | drainNew =>
      rcases hlife.drainNew_enabled hp hc hcn with hgo | ⟨hrun, hclose⟩
      · exact ⟨.conn c .go, rfl, hgo⟩
      · exact ⟨.run .go, .inr ⟨hcn, hrun⟩, hclose⟩
  -- `handleReads` has to close `oldBlocks`, which it does once the socket is closed.
  | drainOld =>
      have hclosed := hungUp_of_reachable h c (by rw [hcn]; rfl)
      rcases hlife.drainOld_enabled hp hc hcn with hgo | hread
      · exact ⟨.conn c .go, rfl, hgo⟩
      · exact ⟨.reads c .error, ⟨rfl, rfl, hcn, hclosed⟩, hread⟩
  | sweep i =>
      refine ⟨.conn c .go, rfl, ?_⟩
      rw [step_conn hp hc (by simp [hcn]), Option.isSome_map]
      simp only [hcn, Conn.runStep]
      split
      · split <;> rfl
      · rfl

/-! ### What is left of a connection -/

/-- A connection that has returned is out of `currentConns`, or `socket.run` stands before
the statement that takes it out. -/
theorem Lifecycle.returned_gone {s : State k} (h : Lifecycle s) {c : ConnId}
    (hpc : (s.conn c).pc = .returned) : c ∉ s.currentConns ∨ s.run = .delete c := by
  by_cases hcur : c ∈ s.currentConns
  · right
    rcases ((h.current_iff c).mp hcur).2 with hatt | hclosing | hdeleting
    · rw [hpc] at hatt
      cases hatt
    · -- `socket.run` has yet to close a channel `conn.run` has seen closed.
      have hopen := (h.open_iff c).mpr (.inr hclosing)
      rw [((h.ok c).drained (by rw [hpc]; rfl)).1] at hopen
      cases hopen
    · exact RunPc.eq_of_deleting hdeleting
  · exact .inl hcur

/-- A connection can return while it is still in `currentConns`: here `socket.run` has closed
`c.newBlocks` and not yet deleted the connection. -/
theorem returned_in_currentConns : ∃ s : State ⟨1, by decide⟩,
    (system ⟨1, by decide⟩).exec (State.initial _)
      [.run .newConn, .reads 0 .eof, .reads 0 .eof, .conn 0 .oldBlock, .conn 0 .go,
        .run (.oldConn 0), .run .go, .conn 0 .go, .conn 0 .go, .conn 0 .go,
        .conn 0 .go] = some s ∧
    (s.conn 0).pc = .returned ∧ 0 ∈ s.currentConns :=
  ⟨_, rfl, rfl, by decide⟩

/-- Channel safety and progress of the teardown. No goroutine sends on a closed channel, closes one
twice or takes the nil of a closed channel for a block. There is no stuck state: a `conn.run` in its
shutdown part has a step, or the goroutine it waits for has one. For a connection on `oldConns` and
a `socket.run` in its `select`, that is the step that receives the connection. Once `conn.run` has
returned, its `handleReads` has closed `oldBlocks` and ended, and the connection is gone from
`currentConns` or is the one `socket.run` deletes in its next step. -/
theorem teardown_safe {s : State k} (h : (system k).Reachable s) :
    (s.panic ≠ some .sendOnClosed ∧ s.panic ≠ some .closeOfClosed ∧ s.panic ≠ some .nilBlock) ∧
    (s.panic = none → ∀ c, c < s.numConns → (s.conn c).pc.shutdown = true →
      ∃ l, s.Awaits c l ∧ (step s l).isSome = true) ∧
    (∀ c, (s.conn c).pc = .returned →
      ((s.conn c).reads = .done ∧ (s.conn c).oldBlocks.closed = true ∧
        (s.conn c).oldBlocks.buf = []) ∧
      (c ∉ s.currentConns ∨ s.run = .delete c)) := by
  have hlife := (inv_of_reachable h).life
  refine ⟨?_, fun hp c hc hpc => shutdown_enabled h hp hc hpc, fun c hpc => ?_⟩
  · rcases panic_of_reachable h with hp | ⟨errno, hp⟩ <;> rw [hp] <;> simp
  · obtain ⟨hclosed, hbuf⟩ := (hlife.ok c).readsDone (by rw [hpc]; rfl)
    exact ⟨⟨(hlife.ok c).done_iff.mpr hclosed, hclosed, hbuf⟩, hlife.returned_gone hpc⟩

/-- The write of the first index, that of block `b`, fails, and the connection is closed. -/
def writeFailsRun (b : k.Index) : List (Label k) :=
  .run .newConn :: .fill b 1 :: dispatchRun ++ fanOutRun 0 ++
    [.conn 0 .newBlock, .conn 0 .go, .conn 0 .go, .conn 0 .writeError, .conn 0 .go]

/-- A client hangs up with a block outstanding: its connection waits in the shutdown part for
`socket.run`. -/
theorem teardown_safe_hangup : ∃ s : State ⟨2, by decide⟩,
    (system ⟨2, by decide⟩).exec (State.initial _) (writeFailsRun 0) = some s ∧
    (s.conn 0).pc = .sendOld ∧ (s.conn 0).outstanding 0 = true ∧
    ∃ l, s.Awaits 0 l ∧ (step s l).isSome = true := by
  obtain ⟨s, hs, hp, hc, hpc, hout⟩ : ∃ s : State ⟨2, by decide⟩,
      (system ⟨2, by decide⟩).exec (State.initial _) (writeFailsRun 0) = some s ∧
      s.panic = none ∧ 0 < s.numConns ∧ (s.conn 0).pc = .sendOld ∧
      (s.conn 0).outstanding 0 = true :=
    ⟨_, rfl, rfl, by decide, rfl, rfl⟩
  refine ⟨s, hs, hpc, hout, (teardown_safe (System.reachable_of_exec hs)).2.1 hp 0 hc ?_⟩
  rw [hpc]
  rfl

end Testimony.Daemon
