import Testimony.Lib.Progress
import Testimony.Proofs.Daemon.Delivery
import Testimony.Proofs.Daemon.Race

/-!
# `Testimony.Proofs.Daemon.Work`: how much there is left to do

`State.work` is a number of steps. It counts what the goroutines of a socket can still do without
anything new from outside: no fill, no new connection, no data from a client. Every step in such a
run makes it smaller, apart from the steps with which `getNewBlocks` looks whether its block is
ready (`work_step`). So the number of the other steps is bounded (`work_bounds_steps`).

A step that makes new work is paid for in advance. An entry of `c.newBlocks` costs the steps up to
the end of its write, a block in `s.newBlocks` costs that for each connection, and a fill that is
not dispatched costs a block in `s.newBlocks`. Where a block is loaded while a clear of it is
pending, `getNewBlocks` can dispatch the same fill again and again, so the runs are those of
`NoStaleLoad`.
-/

set_option autoImplicit false

namespace Testimony.Daemon

open Lib

variable {k : Conf}

/-! ### The measure -/

/-- A block index that is posted is an entry of `c.oldBlocks`, which costs three steps. -/
def ReadsPc.work : ReadsPc → Nat
  | .post _ => 6
  | .read | .value _ => 2
  | .closeOldBlocks => 1
  | .done => 0

/-- The steps of `conn.run` from where it goes on after an `unref`. -/
def Resume.work (k : Conf) : Resume → Nat
  | .select => 3 * k.numBlocks + 9
  | .drainNew => 3 * k.numBlocks + 3
  | .sweep i => 3 * (k.numBlocks - i) + 1

/-- The steps of `conn.run`, with the bytes of the current batch. A write takes at most as many
steps as there are bytes. -/
def ConnPc.work (out : List UInt8) : ConnPc k → Nat
  | .select => Resume.work k .select
  | .record _ => Resume.work k .select + 6 + out.length
  | .batch => Resume.work k .select + 1 + out.length
  | .write rest => Resume.work k .select + rest.length
  | .unref _ next => next.work k + 2
  | .clear _ next => next.work k + 1
  | .close => 3 * k.numBlocks + 8
  -- `socket.run` has two steps to do when it has received the connection.
  | .sendOld => 3 * k.numBlocks + 7
  | .drainNew => Resume.work k .drainNew
  | .drainOld => 3 * k.numBlocks + 2
  | .sweep i => Resume.work k (.sweep i)
  | .returned => 0

/-- The steps of a connection: those of its two goroutines, and those that the entries of its
channels will cost. -/
def Conn.work (cn : Conn k) : Nat :=
  7 * cn.newBlocks.buf.length + 3 * cn.oldBlocks.buf.length + cn.reads.work + cn.pc.work cn.out

/-- The steps of `socket.run`. Each connection still to be visited costs the entry that it gets. -/
def RunPc.work : RunPc k → Nat
  | .select => 0
  | .closeNewBlocks _ => 2
  | .delete _ => 1
  | .fanout _ todo => 9 * todo.card + 3
  | .trySend _ _ todo => 9 * todo.card + 11
  | .unref _ (some todo) => 9 * todo.card + 5
  | .clear _ (some todo) => 9 * todo.card + 4
  | .unref _ none => 2
  | .clear _ none => 1

/-- `getNewBlocks` has a step more to do for its block before it has referenced it. -/
def WatcherPc.work : WatcherPc k → Nat
  | .send _ => 0
  | _ => 1

/-- What a block in `s.newBlocks` costs. -/
def State.blockWork (s : State k) : Nat := 9 * s.numConns + 4

/-- What the goroutines have in hand. -/
def State.inHand (s : State k) : Nat :=
  s.watcher.work + s.blockWork * s.newBlocks.buf.length + s.run.work +
    ∑ c ∈ Finset.range s.numConns, (s.conn c).work

/-- Three comparisons decide it. -/
instance (v : Block) : Decidable v.Undelivered :=
  inferInstanceAs (Decidable (v.filled = true ∧ v.clears = 0 ∧ (v.r = 0 ∨ v.phase = .sending)))

/-- The blocks whose fill has not been dispatched. -/
def State.undelivered (s : State k) : Finset k.Index :=
  Finset.univ.filter fun b => (s.block b).Undelivered

/-- A bound for the number of steps. -/
def State.work (s : State k) : Nat := (s.blockWork + 2) * s.undelivered.card + s.inHand

/-! ### Steps inside a connection -/

/-- The steps from where it goes on are those of the program counter there. -/
theorem Resume.work_pc (next : Resume) (out : List UInt8) :
    (next.pc : ConnPc k).work out = next.work k := by
  cases next <;> rfl

/-- Another program counter changes the steps of `conn.run` only. -/
theorem Conn.work_setPc (cn : Conn k) (pc : ConnPc k) :
    { cn with pc := pc }.work + cn.pc.work cn.out = cn.work + pc.work cn.out := by
  simp only [Conn.work]
  omega

/-- The two steps of an `unref`. -/
theorem Conn.work_resume {cn : Conn k} {b : k.Index} {next : Resume} {pc : ConnPc k}
    (hpc : cn.pc = .unref b next ∧ (pc = next.pc ∨ pc = .clear b next) ∨
      cn.pc = .clear b next ∧ pc = next.pc) : { cn with pc := pc }.work < cn.work := by
  have hset := cn.work_setPc pc
  rcases hpc with ⟨hpc, rfl | rfl⟩ | ⟨hpc, rfl⟩ <;> rw [hpc] at hset
  · rw [Resume.work_pc] at hset
    simp only [ConnPc.work] at hset
    omega
  · simp only [ConnPc.work] at hset
    omega
  · rw [Resume.work_pc] at hset
    simp only [ConnPc.work] at hset
    omega

/-- A receive takes one entry from the channel. -/
theorem length_recv {α : Type} {cap : Nat} {q q' : Chan α cap} {x : α} (h : q.recv = .got x q') :
    q.buf.length = q'.buf.length + 1 := by
  rw [(Chan.recv_eq_got h).1, List.length_cons]

/-- Every step of `conn.run` leaves less to do. -/
theorem Conn.RunMove.work_lt {c : ConnId} {cn cn' : Conn k} {ch : ConnChoice} {es : List (Event k)}
    (hm : cn.RunMove c ch cn' es) : cn'.work < cn.work := by
  cases hm with
  | recvNew hpc hq | batchMore hpc hq | drainNew hpc hq =>
      have hlen := length_recv hq
      simp only [Conn.work, hpc, ConnPc.work, Resume.work, List.length_nil]
      omega
  | accept hpc hq _ | reject hpc hq _ | drainOld hpc hq =>
      have hlen := length_recv hq
      simp only [Conn.work, hpc, ConnPc.work, Resume.work]
      omega
  | mark hpc _ =>
      simp only [Conn.work, hpc, ConnPc.work, List.length_append, BigEndian.length_putUint32]
      omega
  | wrote hpc hn hle =>
      simp only [Conn.work, hpc]
      split <;> simp only [ConnPc.work, List.length_drop] <;> omega
  | @sweepHit b hpc _ | @sweepMiss b hpc _ =>
      have := b.isLt
      simp only [Conn.work, hpc, ConnPc.work, Resume.work]
      omega
  | endOfReads hpc _ | batchDone hpc _ | writeError hpc | close hpc | drainNewDone hpc _
  | drainOldDone hpc _ | sweepDone hpc _ =>
      simp only [Conn.work, hpc, ConnPc.work, Resume.work]
      omega

/-- A step of `handleReads` without data from the client. -/
theorem Conn.ReadsMove.work_lt {cn cn' : Conn k} {inp : ReadInput} (hm : cn.ReadsMove inp cn')
    (hinp : ∀ bytes, inp ≠ .data bytes) : cn'.work < cn.work := by
  cases hm with
  | word _ _ _ | short _ _ _ _ | value _ _ _ _ => exact absurd rfl (hinp _)
  | stop hpc _ => rcases hpc with hpc | ⟨n, hpc⟩ <;> simp [Conn.work, hpc, ReadsPc.work]
  | post hpc hq =>
      obtain ⟨-, -, hbuf⟩ := Chan.send_eq_sent hq
      simp only [Conn.work, hpc, ReadsPc.work, hbuf, List.length_append, List.length_singleton]
      omega
  | closeOldBlocks hpc hq =>
      obtain ⟨-, -, hbuf⟩ := Chan.close_eq_some hq
      simp [Conn.work, hpc, ReadsPc.work, hbuf]

/-! ### Steps of the socket -/

/-- A step of `socket.run` and one connection. -/
theorem inHand_of_conn {s s' : State k} {c : ConnId} {cn : Conn k} (hc : c < s.numConns)
    (hnum : s'.numConns = s.numConns) (hconn : s'.conn = Function.update s.conn c cn)
    (hwatcher : s'.watcher = s.watcher) (hnew : s'.newBlocks = s.newBlocks)
    (hlt : s'.run.work + cn.work < s.run.work + (s.conn c).work) : s'.inHand < s.inHand := by
  have hsum := sum_update (Finset.mem_range.mpr hc) s.conn cn fun _ cn => cn.work
  simp only [State.inHand, State.blockWork, hnum, hconn, hwatcher, hnew]
  omega

/-- A step of one connection. -/
theorem inHand_of_work_lt {s s' : State k} {c : ConnId} {cn : Conn k} (hc : c < s.numConns)
    (hnum : s'.numConns = s.numConns) (hconn : s'.conn = Function.update s.conn c cn)
    (hwatcher : s'.watcher = s.watcher) (hnew : s'.newBlocks = s.newBlocks)
    (hrun : s'.run = s.run) (hlt : cn.work < (s.conn c).work) : s'.inHand < s.inHand :=
  inHand_of_conn hc hnum hconn hwatcher hnew (by rw [hrun]; omega)

/-- A step of `socket.run` alone. -/
theorem inHand_of_run {s s' : State k} (hnum : s'.numConns = s.numConns)
    (hconn : s'.conn = s.conn) (hwatcher : s'.watcher = s.watcher)
    (hnew : s'.newBlocks = s.newBlocks) (hlt : s'.run.work < s.run.work) :
    s'.inHand < s.inHand := by
  simp only [State.inHand, State.blockWork, hnum, hconn, hwatcher, hnew]
  omega

/-- The two halves of an `unref` are one step each. -/
theorem RunPc.work_unref (b : k.Index) (todo : Option (Finset ConnId)) :
    (RunPc.unref b todo).work = (RunPc.resume b todo).work + 2 ∧
    (RunPc.clear b todo).work = (RunPc.resume b todo).work + 1 := by
  cases todo <;> exact ⟨rfl, rfl⟩

/-- The connections `socket.run` knows exist. -/
theorem Lifecycle.card_currentConns_le {s : State k} (h : Lifecycle s) :
    s.currentConns.card ≤ s.numConns := by
  have hsub : s.currentConns ⊆ Finset.range s.numConns := fun c hc =>
    Finset.mem_range.mpr ((h.current_iff c).mp hc).1
  simpa using Finset.card_le_card hsub

/-! ### Runs without anything new -/

/-- What comes from outside: a fill, a new connection, data from a client, and an error of
`WaitForBlocks`. -/
def Label.external : Label k → Bool
  | .fill _ _ | .run .newConn | .reads _ (.data _) => true
  | .getNewBlocks errno => decide (errno ≠ 0)
  | _ => false

/-- `getNewBlocks` looks whether its block is ready, or waits before it looks again. -/
def State.polls (s : State k) : Label k → Bool
  | .getNewBlocks _ =>
      match s.watcher with
      | .ref _ | .send _ => false
      | _ => true
  | _ => false

/-- A step that does not come from outside is a move. -/
theorem Inv.move_of_step {s s' : State k} {l : Label k} (h : Inv s) (hstep : step s l = some s')
    (hl : l.external = false) : Move s l s' := by
  rcases h.step_cases hstep with hm | ⟨errno, hne, rfl, -⟩
  · exact hm
  · exact absurd (by simpa [Label.external] using hl) hne

/-- What a move that does not come from outside does to what is in hand. `getNewBlocks` only looks,
or it dispatches its block and makes work for `socket.run`. Every other step makes the work less. -/
theorem Move.inHand {s s' : State k} {l : Label k} (hm : Move s l s') (hlife : Lifecycle s)
    (hl : l.external = false) : s'.numConns = s.numConns ∧
      ((s.polls l = true ∧ s'.inHand = s.inHand) ∨
        s'.inHand < s.inHand ∨
        ∃ b, s'.log = s.log ++ [.dispatch b] ∧ s'.inHand = s.inHand + s.blockWork + 1) := by
  cases hm with
  | fill _ _ | register _ => cases hl
  -- `getNewBlocks`
  | countZero hpc _ | statusSet hpc _ | waited hpc =>
      exact ⟨rfl, .inl ⟨by simp [State.polls, hpc],
        by simp [State.inHand, State.blockWork, hpc, WatcherPc.work]⟩⟩
  | notReady hpc =>
      rcases hpc with hpc | hpc <;>
        exact ⟨rfl, .inl ⟨by simp [State.polls, hpc],
          by simp [State.inHand, State.blockWork, hpc, WatcherPc.work]⟩⟩
  | ref hpc =>
      exact ⟨rfl, .inr (.inl (by
        simp [State.inHand, State.blockWork, State.addInt32, hpc, WatcherPc.work]))⟩
  | @dispatch _ b q hpc hq =>
      obtain ⟨-, -, hbuf⟩ := Chan.send_eq_sent hq
      refine ⟨rfl, .inr (.inr ⟨b, rfl, ?_⟩)⟩
      simp only [State.inHand, State.blockWork, hpc, WatcherPc.work, hbuf, List.length_append,
        List.length_singleton, Nat.mul_add]
      omega
  -- `socket.run`
  | oldConn hpc hc hold =>
      refine ⟨rfl, .inr (.inl (inHand_of_conn hc rfl rfl rfl rfl ?_))⟩
      simp only [hpc, RunPc.work, Conn.work, hold, ConnPc.work, Resume.work]
      omega
  | take hpc hq =>
      -- The block in `s.newBlocks` has paid for a visit of every connection.
      have hlen := length_recv hq
      have hcard := hlife.card_currentConns_le
      refine ⟨rfl, .inr (.inl ?_)⟩
      simp only [State.inHand, State.blockWork, hpc, RunPc.work, hlen, Nat.mul_add]
      omega
  | closeNewBlocks hpc hq =>
      have hc := (hlife.retiring _ (.inl (by rw [hpc]; rfl))).1
      obtain ⟨-, -, hbuf⟩ := Chan.close_eq_some hq
      refine ⟨rfl, .inr (.inl (inHand_of_conn hc rfl rfl rfl rfl ?_))⟩
      simp only [hpc, RunPc.work, Conn.work, hbuf]
      omega
  | delete hpc =>
      exact ⟨rfl, .inr (.inl (inHand_of_run rfl rfl rfl rfl (by simp [hpc, RunPc.work])))⟩
  | visit hpc hc =>
      have hcard := Finset.card_erase_add_one hc
      refine ⟨rfl, .inr (.inl (inHand_of_run rfl rfl rfl rfl ?_))⟩
      simp only [hpc, RunPc.work]
      omega
  | endRange hpc | skipped hpc _ =>
      refine ⟨rfl, .inr (.inl (inHand_of_run rfl rfl rfl rfl ?_))⟩
      simp only [hpc, RunPc.work]
      omega
  | sent hpc hq =>
      obtain ⟨-, -, hbuf⟩ := Chan.send_eq_sent hq
      refine ⟨rfl, .inr (.inl (inHand_of_conn (hlife.lt_of_trySend hpc) rfl rfl rfl rfl ?_))⟩
      simp only [hpc, RunPc.work, Conn.work, hbuf, List.length_append, List.length_singleton]
      omega
  | @runUnref b todo hpc hr =>
      refine ⟨rfl, .inr (.inl (inHand_of_run rfl rfl rfl rfl ?_))⟩
      show (RunPc.resume b todo).work < _
      rw [hpc, (RunPc.work_unref b todo).1]
      omega
  | @runUnrefZero b todo hpc hr =>
      refine ⟨rfl, .inr (.inl (inHand_of_run rfl rfl rfl rfl ?_))⟩
      obtain ⟨hunref, hclear⟩ := RunPc.work_unref b todo
      rw [hpc, hunref, hclear]
      omega
  | @runClear b todo hpc =>
      refine ⟨rfl, .inr (.inl (inHand_of_run rfl rfl rfl rfl ?_))⟩
      rw [hpc, (RunPc.work_unref b todo).2]
      exact Nat.lt_succ_self _
  -- The connections.
  | connUnref hc hpc _ =>
      exact ⟨rfl, .inr (.inl (inHand_of_work_lt hc rfl rfl rfl rfl rfl
        (Conn.work_resume (.inl ⟨hpc, .inl rfl⟩))))⟩
  | connUnrefZero hc hpc _ =>
      exact ⟨rfl, .inr (.inl (inHand_of_work_lt hc rfl rfl rfl rfl rfl
        (Conn.work_resume (.inl ⟨hpc, .inr rfl⟩))))⟩
  | connClear hc hpc =>
      exact ⟨rfl, .inr (.inl (inHand_of_work_lt hc rfl rfl rfl rfl rfl
        (Conn.work_resume (.inr ⟨hpc, rfl⟩))))⟩
  | connRun hc hmove =>
      exact ⟨rfl, .inr (.inl (inHand_of_work_lt hc rfl rfl rfl rfl rfl hmove.work_lt))⟩
  | connReads hc hmove =>
      have hinp := hmove.work_lt (by rintro bytes rfl; cases hl)
      exact ⟨rfl, .inr (.inl (inHand_of_work_lt hc rfl rfl rfl rfl rfl hinp))⟩

/-! ### What is not dispatched -/

/-- The block that an event fills. -/
def Event.filled : Event k → Option k.Index
  | .fill b => some b
  | _ => none

/-- The blocks the kernel has filled. -/
def fills (log : List (Event k)) : List k.Index := log.filterMap Event.filled

/-- Fills are collected event by event. -/
theorem fills_append (log es : List (Event k)) : fills (log ++ es) = fills log ++ fills es :=
  List.filterMap_append

/-- The blocks that are counted are those whose fill is not dispatched. -/
theorem mem_undelivered {s : State k} {b : k.Index} :
    b ∈ s.undelivered ↔ (s.block b).Undelivered := by
  simp [State.undelivered]

/-- Only a fill makes a block undelivered. -/
theorem Move.undelivered_subset {s s' : State k} {l : Label k} (hm : Move s l s') (hinv : Inv s)
    (hok : ∀ b, (s.block b).Ok) (hfills : fills s'.log = fills s.log) :
    s'.undelivered ⊆ s.undelivered := by
  intro b hb
  rw [mem_undelivered] at hb ⊢
  obtain ⟨act, es, hlog, hes, hstep, -⟩ := hm.blockMove hinv b
  cases act with
  | fill =>
      cases hes
      rw [hlog, fills_append] at hfills
      simp [fills, Event.filled] at hfills
  | dispatch => exact absurd hb (hstep.dispatch_turn (hok b)).2
  | clear => exact absurd hb hstep.clear_turn.2
  | load | silent => exact (hstep.other_turn (hok b) (by simp)).mp hb

/-- A dispatch delivers its block. -/
theorem Move.undelivered_ssubset {s s' : State k} {l : Label k} {b : k.Index} (hm : Move s l s')
    (hinv : Inv s)
    (hok : ∀ b, (s.block b).Ok) (hlog : s'.log = s.log ++ [.dispatch b]) :
    s'.undelivered ⊂ s.undelivered := by
  have hfills : fills s'.log = fills s.log := by
    rw [hlog, fills_append]
    exact List.append_nil _
  refine Finset.ssubset_iff_subset_ne.mpr ⟨hm.undelivered_subset hinv hok hfills, fun heq => ?_⟩
  obtain ⟨act, es, hlog', hes, hstep, -⟩ := hm.blockMove hinv b
  have hes' : es = [.dispatch b] := List.append_cancel_left (hlog'.symm.trans hlog)
  have hact : act = .dispatch := by
    cases act with
    | dispatch => rfl
    | fill | clear => rw [hes'] at hes; cases hes
    | load | silent => exact absurd rfl (hes (.dispatch b) (by simp [hes'])).2.1
  subst hact
  obtain ⟨hu, hu'⟩ := hstep.dispatch_turn (hok b)
  rw [← mem_undelivered, ← heq, mem_undelivered] at hu
  exact hu' hu

/-- An event that is no fill adds none. -/
theorem fills_snoc {log : List (Event k)} {e : Event k} (he : e.filled = none) :
    fills (log ++ [e]) = fills log := by
  rw [fills_append]
  simp [fills, he]

/-- A `conn.run` fills no block. -/
theorem Conn.RunMove.no_fill {c : ConnId} {cn cn' : Conn k} {ch : ConnChoice} {es : List (Event k)}
    (hm : cn.RunMove c ch cn' es) : fills es = [] := by
  cases hm <;> rfl

/-- Only the kernel fills a block. -/
theorem Move.fills_eq {s s' : State k} {l : Label k} (hm : Move s l s')
    (hl : ∀ b v, l ≠ .fill b v) : fills s'.log = fills s.log := by
  cases hm with
  | fill _ _ => exact absurd rfl (hl _ _)
  | dispatch _ _ | register _ | take _ _ | runClear _ | connClear _ _ => exact fills_snoc rfl
  | connRun _ hmove =>
      show fills (s.log ++ _) = _
      rw [fills_append, hmove.no_fill, List.append_nil]
  | _ => rfl

/-- A step that is not a fill leaves the fills as they are. -/
theorem Inv.fills_eq {s s' : State k} {l : Label k} (h : Inv s) (hstep : step s l = some s')
    (hl : ∀ b v, l ≠ .fill b v) : fills s'.log = fills s.log := by
  rcases h.step_cases hstep with hm | ⟨errno, -, -, rfl⟩
  · exact hm.fills_eq hl
  · rfl

/-- A step that does not come from outside makes the work less, unless it only looks. -/
theorem work_step {s s' : State k} {l : Label k} (hinv : Inv s) (hok : ∀ b, (s.block b).Ok)
    (hstep : step s l = some s') (hl : l.external = false) :
    s'.work + (!s.polls l).toNat ≤ s.work := by
  have hm := hinv.move_of_step hstep hl
  have hpoll := Bool.toNat_le (!s.polls l)
  obtain ⟨hnum, hcases⟩ := hm.inHand hinv.life hl
  have hfills : fills s'.log = fills s.log := hm.fills_eq (by rintro b v rfl; cases hl)
  have hmul := Nat.mul_le_mul_left (s.blockWork + 2)
    (Finset.card_le_card (hm.undelivered_subset hinv hok hfills))
  simp only [State.work, State.blockWork, hnum] at hmul ⊢
  rcases hcases with ⟨hlook, heq⟩ | hlt | ⟨b, hlog, heq⟩
  · rw [hlook, heq]
    simpa using hmul
  · omega
  · -- The fill has paid for its dispatch.
    have hstrict : (s.blockWork + 2) * (s'.undelivered.card + 1) ≤
        (s.blockWork + 2) * s.undelivered.card :=
      Nat.mul_le_mul_left _ (Finset.card_lt_card (hm.undelivered_ssubset hinv hok hlog))
    rw [Nat.mul_add, Nat.mul_one] at hstrict
    simp only [State.blockWork] at hstrict heq
    omega

/-- A step of a run in which nothing comes from outside. -/
def Inward (s : State k) (l : Label k) : Prop := NoStaleLoad s l ∧ l.external = false

/-- Both conditions are decided. -/
instance (s : State k) (l : Label k) : Decidable (Inward s l) :=
  inferInstanceAs (Decidable (_ ∧ _))

/-- The daemon comes to rest by itself. As long as the kernel fills no block, nobody connects and no
client sends anything, the goroutines of a socket take at most `State.work` steps, not counting
those with which `getNewBlocks` looks whether its block is ready. Neither the run so far nor its
continuation has a stale load. -/
theorem work_bounds_steps {s s' : State k} (h : (system k).ReachableBy NoStaleLoad s)
    (ls : List (Label k)) (hrun : (system k).execBy Inward s ls = some s') :
    (system k).count (fun s l => !s.polls l) s ls ≤ s.work := by
  have hle := System.count_le_of_execBy (M := system k) (G := Inward)
    (P := (system k).ReachableBy NoStaleLoad) (m := State.work) (p := fun s l => !s.polls l)
    (fun s l s' hs hG hstep => ⟨.step hs hG.1 hstep,
      work_step (inv_of_reachable hs.reachable) (block_ok_of_guarded hs) hstep hG.2⟩) ls h hrun
  omega

/-- A client has joined and the only block is filled: eleven of at most thirty steps, and some
looks, end with its index at the client. -/
theorem work_bounds_steps_write : ∃ (s s' : State ⟨1, by decide⟩)
    (ls : List (Label ⟨1, by decide⟩)),
    (system ⟨1, by decide⟩).execBy NoStaleLoad (State.initial _) [.run .newConn, .fill 0 1] =
      some s ∧ s.work = 30 ∧
    (system ⟨1, by decide⟩).execBy Inward s ls = some s' ∧ written 0 s'.log = [0, 0, 0, 0] ∧
    (system ⟨1, by decide⟩).count (fun s l => !s.polls l) s ls = 11 ∧
    (system ⟨1, by decide⟩).count (fun s l => !s.polls l) s ls ≤ s.work := by
  obtain ⟨s, s', ls, hs, hwork, hrun, hwritten, hcount⟩ :
      ∃ (s s' : State ⟨1, by decide⟩) (ls : List (Label ⟨1, by decide⟩)),
        (system ⟨1, by decide⟩).execBy NoStaleLoad (State.initial _) [.run .newConn, .fill 0 1] =
          some s ∧ s.work = 30 ∧
        (system ⟨1, by decide⟩).execBy Inward s ls = some s' ∧ written 0 s'.log = [0, 0, 0, 0] ∧
        (system ⟨1, by decide⟩).count (fun s l => !s.polls l) s ls = 11 :=
    ⟨_, _, dispatchRun ++ fanOutRun 0 ++ [.run .go, .run .go] ++ writeRun 0 ++ [.getNewBlocks 0],
      rfl, rfl, rfl, rfl, rfl⟩
  exact ⟨s, s', ls, hs, hwork, hrun, hwritten, hcount,
    work_bounds_steps (System.ReachableBy.init.exec _ hs) ls hrun⟩

end Testimony.Daemon
