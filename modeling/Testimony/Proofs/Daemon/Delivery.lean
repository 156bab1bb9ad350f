import Testimony.Proofs.Daemon.Trace

/-!
# `Testimony.Proofs.Daemon.Delivery`: every connection gets the ring, in order, without a gap

`getNewBlocks` walks the ring and dispatches each block before it goes on, so the dispatches
count through the ring from block zero (`Ordered`). `socket.run` takes them in that order.

`Fed` follows the blocks into one connection: what it has marked, what it holds in its hands,
what waits in its `newBlocks` and what `socket.run` is about to send it add up to what
`socket.run` has taken since the connection was registered. Nothing is lost on the way
because the non-blocking send always finds room (`Inv.conn_newBlocks_length_lt`). With the
trace of the bytes, `delivery_ordered` follows.
-/

set_option autoImplicit false

namespace Testimony.Daemon

open Lib

variable {k : Conf}

/-! ### The order of the ring -/

/-- The block that an event sends to `socket.run`. -/
def Event.dispatched : Event k → Option k.Index
  | .dispatch b => some b
  | _ => none

/-- The block that an event takes from `newBlocks`. -/
def Event.taken : Event k → Option k.Index
  | .take b => some b
  | _ => none

/-- The blocks `getNewBlocks` has sent on `s.newBlocks`. -/
def dispatches (log : List (Event k)) : List k.Index := log.filterMap Event.dispatched

/-- The blocks `socket.run` has received from `s.newBlocks`. -/
def takes (log : List (Event k)) : List k.Index := log.filterMap Event.taken

/-- The block `getNewBlocks` is at. -/
def WatcherPc.block : WatcherPc k → k.Index
  | .loadCount b | .loadStatus b | .wait b | .ref b | .send b => b

/-- The dispatches count through the ring, the watcher is at the next one, and `socket.run`
has taken all but those still queued. -/
structure Ordered (s : State k) : Prop where
  rotates : Rotates k.numBlocks ((dispatches s.log).map Fin.val)
  next : s.watcher.block.val = (dispatches s.log).length % k.numBlocks
  queue : takes s.log ++ s.newBlocks.buf = dispatches s.log

/-- At the start nothing is dispatched, and `getNewBlocks` is at block zero. -/
theorem ordered_initial (k : Conf) : Ordered (State.initial k) where
  rotates := rotates_nil _
  next := (Nat.zero_mod _).symm
  queue := rfl

/-- Steps that neither dispatch nor take a block. -/
theorem Ordered.frame {s s' : State k} {es : List (Event k)} (h : Ordered s)
    (hlog : s'.log = s.log ++ es)
    (hes : ∀ e ∈ es, e.dispatched = none ∧ e.taken = none)
    (hwatcher : s'.watcher.block = s.watcher.block) (hnew : s'.newBlocks = s.newBlocks) :
    Ordered s' := by
  have hd : dispatches s'.log = dispatches s.log := by
    rw [hlog, dispatches, List.filterMap_append,
      List.filterMap_eq_nil_iff.mpr fun e he => (hes e he).1, List.append_nil]
    rfl
  have ht : takes s'.log = takes s.log := by
    rw [hlog, takes, List.filterMap_append,
      List.filterMap_eq_nil_iff.mpr fun e he => (hes e he).2, List.append_nil]
    rfl
  refine ⟨?_, ?_, ?_⟩
  · rw [hd]
    exact h.rotates
  · rw [hd, hwatcher]
    exact h.next
  · rw [hd, ht, hnew]
    exact h.queue

/-- The events of a step of `conn.run` are neither dispatches nor takes. -/
theorem Conn.RunMove.no_take {c : ConnId} {cn cn' : Conn k} {ch : ConnChoice} {es : List (Event k)}
    (hm : cn.RunMove c ch cn' es) : ∀ e ∈ es, e.dispatched = none ∧ e.taken = none := by
  cases hm <;> simp [Event.dispatched, Event.taken]

/-- Only a dispatch, which goes to the next block of the ring, and a take, which empties the queue
from its front, touch the order. -/
theorem Move.ordered {s s' : State k} {l : Label k} (hm : Move s l s') (h : Ordered s) :
    Ordered s' := by
  cases hm with
  | dispatch hpc hq =>
      rename_i b q
      have hnext := h.next
      rw [hpc] at hnext
      have hd : dispatches (s.log ++ [.dispatch b]) = dispatches s.log ++ [b] := by
        simp [dispatches, Event.dispatched]
      have ht : takes (s.log ++ [.dispatch b]) = takes s.log := by
        simp [takes, Event.taken]
      refine ⟨?_, ?_, ?_⟩
      -- The block that is sent is the one whose turn it is.
      · show Rotates k.numBlocks ((dispatches (s.log ++ [.dispatch b])).map Fin.val)
        rw [hd, List.map_append]
        refine rotates_append_singleton h.rotates ?_
        rw [List.length_map]
        exact hnext
      · show (k.next b).val = (dispatches (s.log ++ [.dispatch b])).length % k.numBlocks
        rw [hd, List.length_append, List.length_singleton]
        show (b.val + 1) % k.numBlocks = _
        rw [show b.val = (dispatches s.log).length % k.numBlocks from hnext, Nat.mod_add_mod]
      · show takes (s.log ++ [.dispatch b]) ++ q.buf = dispatches (s.log ++ [.dispatch b])
        rw [hd, ht, (Chan.send_eq_sent hq).2.2, ← List.append_assoc, h.queue]
  | take hpc hq =>
      rename_i b q
      have hd : dispatches (s.log ++ [.take b]) = dispatches s.log := by
        simp [dispatches, Event.dispatched]
      have ht : takes (s.log ++ [.take b]) = takes s.log ++ [b] := by
        simp [takes, Event.taken]
      refine ⟨?_, ?_, ?_⟩
      · show Rotates k.numBlocks ((dispatches (s.log ++ [.take b])).map Fin.val)
        rw [hd]
        exact h.rotates
      · show s.watcher.block.val = (dispatches (s.log ++ [.take b])).length % k.numBlocks
        rw [hd]
        exact h.next
      · show takes (s.log ++ [.take b]) ++ q.buf = dispatches (s.log ++ [.take b])
        rw [hd, ht, ← h.queue, (Chan.recv_eq_got hq).1]
        simp
  -- No other step dispatches or takes a block.
  | fill _ _ | register _ | runClear _ | connClear _ _ =>
      exact h.frame rfl (by simp [Event.dispatched, Event.taken]) rfl rfl
  | countZero hpc _ | statusSet hpc _ | waited hpc | ref hpc =>
      exact h.frame (List.append_nil _).symm nofun (by rw [hpc]; rfl) rfl
  | notReady hpc =>
      refine h.frame (List.append_nil _).symm nofun ?_ rfl
      rcases hpc with hpc | hpc <;> rw [hpc] <;> rfl
  | oldConn _ _ _ | closeNewBlocks _ _ | delete _ | visit _ _ | endRange _ | sent _ _
  | skipped _ _ | runUnref _ _ | runUnrefZero _ _ | connUnref _ _ _ | connUnrefZero _ _ _
  | connReads _ _ => exact h.frame (List.append_nil _).symm nofun rfl rfl
  | connRun _ hmove => exact h.frame rfl hmove.no_take rfl rfl

/-- In every state of the daemon the dispatches go round the ring, and the takes follow them. -/
theorem ordered_of_reachable {s : State k} (h : (system k).Reachable s) : Ordered s :=
  invariant_of_move (P := Ordered) (ordered_initial k)
    (fun _ _ hs => ⟨hs.rotates, hs.next, hs.queue⟩) (fun _ _ _ _ hs hm => hm.ordered hs) h

/-! ### From `socket.run` into a connection -/

/-- The event is the registration of connection `c`. -/
def Event.registers (c : ConnId) : Event k → Bool
  | .register d => decide (d = c)
  | _ => false

/-- The blocks `socket.run` has taken since it registered connection `c`. -/
def takesSince (c : ConnId) (log : List (Event k)) : List k.Index :=
  takes (after (Event.registers c) log)

/-- Once `c` is registered, an event adds what it takes. -/
theorem takesSince_append {c : ConnId} {log : List (Event k)} (hc : Event.register c ∈ log)
    (es : List (Event k)) : takesSince c (log ++ es) = takesSince c log ++ takes es := by
  unfold takesSince
  rw [after_append hc (by simp [Event.registers]), takes, List.filterMap_append]
  rfl

/-- What is taken since a registration is the end of what is taken. -/
theorem takesSince_suffix (c : ConnId) (log : List (Event k)) :
    takesSince c log <:+ takes log := by
  obtain ⟨pre, hpre⟩ := after_suffix (Event.registers c) log
  refine ⟨takes pre, ?_⟩
  rw [takesSince, takes, takes, ← List.filterMap_append, hpre]
  rfl

/-- The block `conn.run` has received and not yet marked. -/
def ConnPc.hand : ConnPc k → List k.Index
  | .record b => [b]
  | _ => []

/-- What `socket.run` is about to send to connection `c`. -/
def RunPc.due (c : ConnId) (pc : RunPc k) : List k.Index :=
  if c ∈ pc.targets then pc.block.toList else []

/-- What connection `c` has got of the blocks sent to it. -/
def Conn.got (c : ConnId) (cn : Conn k) (log : List (Event k)) : List k.Index :=
  marks c log ++ cn.pc.hand ++ cn.newBlocks.buf

/-- Connections get what `socket.run` takes. A connection that is still served has got, or is about
to get, every block taken since its registration, in order. What is marked for it is the first part
of that. -/
structure Fed (s : State k) : Prop where
  registered : ∀ c, c < s.numConns → Event.register c ∈ s.log
  fed : ∀ c, c < s.numConns → (s.conn c).pc.attached = true →
    (s.conn c).got c s.log ++ s.run.due c = takesSince c s.log
  marked : ∀ c, c < s.numConns → marks c s.log <+: takesSince c s.log

/-- At the start there is no connection to feed. -/
theorem fed_initial (k : Conf) : Fed (State.initial k) where
  registered _ := nofun
  fed _ := nofun
  marked _ := nofun

/-- What `socket.run` is about to send to a connection depends on its targets and its block only. -/
theorem RunPc.due_eq {c : ConnId} {pc pc' : RunPc k} (htargets : c ∈ pc'.targets ↔ c ∈ pc.targets)
    (hblock : c ∈ pc.targets → pc'.block = pc.block) : pc'.due c = pc.due c := by
  unfold RunPc.due
  by_cases hc : c ∈ pc.targets
  · rw [if_pos hc, if_pos (htargets.mpr hc), hblock hc]
  · rw [if_neg hc, if_neg (fun h => hc (htargets.mp h))]

/-- `unref` changes nothing about what is due. -/
theorem RunPc.due_resume (b : k.Index) (todo : Option (Finset ConnId)) (c : ConnId) :
    (RunPc.resume b todo).due c = (RunPc.unref b todo).due c ∧
    (RunPc.clear b todo).due c = (RunPc.unref b todo).due c := by
  cases todo <;> exact ⟨rfl, rfl⟩

/-- What is fed to a connection covers its marks. -/
theorem Fed.of_fed {s : State k} (hreg : ∀ c, c < s.numConns → Event.register c ∈ s.log)
    (hfed : ∀ c, c < s.numConns → (s.conn c).pc.attached = true →
      (s.conn c).got c s.log ++ s.run.due c = takesSince c s.log)
    (hmarked : ∀ c, c < s.numConns → (s.conn c).pc.attached = false →
      marks c s.log <+: takesSince c s.log) : Fed s where
  registered := hreg
  fed := hfed
  marked c hc := by
    cases hatt : (s.conn c).pc.attached with
    | true =>
        rw [← hfed c hc hatt, Conn.got, List.append_assoc, List.append_assoc]
        exact List.prefix_append _ _
    | false => exact hmarked c hc hatt

/-- A step that takes no block and registers no connection: it may move blocks along inside an
attached connection, or detach one. -/
theorem Fed.frame {s s' : State k} {es : List (Event k)} (h : Fed s)
    (hlog : s'.log = s.log ++ es) (hes : takes es = []) (hnum : s'.numConns = s.numConns)
    (hatt : ∀ c, c < s.numConns → (s'.conn c).pc.attached = true →
      (s.conn c).pc.attached = true ∧
      (s'.conn c).got c s'.log ++ s'.run.due c = (s.conn c).got c s.log ++ s.run.due c)
    (hdet : ∀ c, (s'.conn c).pc.attached = false → marks c es = []) : Fed s' := by
  have hsince : ∀ c, c < s.numConns → takesSince c s'.log = takesSince c s.log := by
    intro c hc
    rw [hlog, takesSince_append (h.registered c hc), hes, List.append_nil]
  refine Fed.of_fed ?_ ?_ ?_
  · intro c hc
    rw [hlog]
    exact List.mem_append_left _ (h.registered c (hnum ▸ hc))
  · intro c hc hpc
    rw [hnum] at hc
    obtain ⟨hpc', heq⟩ := hatt c hc hpc
    rw [heq, hsince c hc]
    exact h.fed c hc hpc'
  · intro c hc hpc
    rw [hnum] at hc
    rw [hsince c hc, hlog, marks_append, hdet c hpc, List.append_nil]
    exact h.marked c hc

/-- Inside an attached connection blocks move from the channel through the hands of `conn.run`
to the marks. -/
theorem Conn.RunMove.got_eq {c : ConnId} {cn cn' : Conn k} {ch : ConnChoice} {es : List (Event k)}
    (hm : cn.RunMove c ch cn' es) (hatt : cn'.pc.attached = true) (log : List (Event k)) :
    cn'.got c (log ++ es) = cn.got c log := by
  cases hm with
  | recvNew hpc hq | batchMore hpc hq =>
      simp [Conn.got, hpc, ConnPc.hand, (Chan.recv_eq_got hq).1]
  | mark hpc hb => simp [Conn.got, hpc, ConnPc.hand, marks, Event.marked]
  | accept hpc hq hb => simp [Conn.got, hpc, ConnPc.hand, marks, Event.marked]
  | wrote hpc hn hle =>
      simp only [Conn.got, hpc, marks_append]
      split <;> simp [ConnPc.hand, marks, Event.marked]
  | reject hpc hq hv | endOfReads hpc hq | batchDone hpc hq | writeError hpc | close hpc =>
      simp [Conn.got, hpc, ConnPc.hand]
  | drainNew hpc hq | drainNewDone hpc hq | drainOldDone hpc hq | sweepHit hpc hb
  | sweepMiss hpc hb | sweepDone hpc hi => cases hatt
  | drainOld hpc hq => rw [List.append_nil]; rfl

/-- A detached connection marks nothing. -/
theorem Conn.RunMove.marks_eq_nil {c : ConnId} {cn cn' : Conn k} {ch : ConnChoice}
    {es : List (Event k)}
    (hm : cn.RunMove c ch cn' es) (hatt : cn'.pc.attached = false) (d : ConnId) :
    marks d es = [] := by
  cases hm with
  | mark hpc hb => cases hatt
  | _ => rfl

/-- A step of connection `c` that leaves `socket.run` alone. -/
theorem Fed.frame_conn {s s' : State k} {es : List (Event k)} {c : ConnId} {cn : Conn k}
    (h : Fed s) (hlog : s'.log = s.log ++ es) (hes : takes es = [])
    (hown : ∀ d, d ≠ c → marks d es = []) (hnum : s'.numConns = s.numConns)
    (hrun : s'.run = s.run) (hconn : s'.conn = Function.update s.conn c cn)
    (hpc : cn.pc.attached = (s.conn c).pc.attached)
    (hgot : cn.pc.attached = true → cn.got c (s.log ++ es) = (s.conn c).got c s.log)
    (hdet : cn.pc.attached = false → marks c es = []) : Fed s' := by
  have hother : ∀ d, d ≠ c → s'.conn d = s.conn d := by
    intro d hd
    rw [hconn, Function.update_of_ne hd]
  have hself : s'.conn c = cn := by rw [hconn, Function.update_self]
  refine h.frame hlog hes hnum ?_ ?_
  · intro d _ hd
    rw [hrun, hlog]
    by_cases hdc : d = c
    · subst hdc
      rw [hself] at hd ⊢
      exact ⟨hpc ▸ hd, by rw [hgot hd]⟩
    · rw [hother d hdc] at hd ⊢
      refine ⟨hd, ?_⟩
      simp only [Conn.got, marks_append, hown d hdc, List.append_nil]
  · intro d hd
    by_cases hdc : d = c
    · subst hdc
      rw [hself] at hd
      exact hdet hd
    · exact hown d hdc

/-- `socket.run` takes a block: it is due to every attached connection. -/
theorem Fed.take {s : State k} (h : Fed s) (hl : Lifecycle s) {b : k.Index}
    {q : Chan k.Index k.numBlocks} (hpc : s.run = .select) :
    Fed { s with
      newBlocks := q
      run := .fanout b s.currentConns
      log := s.log ++ [.take b] } := by
  have hmarks : ∀ c, marks c (s.log ++ [.take b]) = marks c s.log := by
    intro c
    rw [marks_append]
    simp [marks, Event.marked]
  have hsince : ∀ c, c < s.numConns →
      takesSince c (s.log ++ [.take b]) = takesSince c s.log ++ [b] :=
    fun c hc => takesSince_append (h.registered c hc) [.take b]
  refine ⟨?_, ?_, ?_⟩
  · intro c hc
    exact List.mem_append_left _ (h.registered c hc)
  · intro c hc hatt
    -- An attached connection is one of the targets.
    have hcur : c ∈ s.currentConns := (hl.current_iff c).mpr ⟨hc, .inl hatt⟩
    have hfed := h.fed c hc hatt
    rw [hpc] at hfed
    show (s.conn c).got c (s.log ++ [.take b]) ++ (RunPc.fanout b s.currentConns).due c
      = takesSince c (s.log ++ [.take b])
    rw [hsince c hc, ← hfed]
    simp [Conn.got, hmarks c, RunPc.due, RunPc.targets, RunPc.block, hcur]
  · intro c hc
    show marks c (s.log ++ [.take b]) <+: takesSince c (s.log ++ [.take b])
    rw [hmarks c, hsince c hc]
    exact (h.marked c hc).trans (List.prefix_append _ _)

/-- A new connection has got nothing, and nothing has been taken for it. -/
theorem Fed.register {s : State k} (h : Fed s) (htr : Traced s) (hpc : s.run = .select) :
    Fed (addNewConn s) := by
  have hunborn := htr.unborn s.numConns (Nat.le_refl _)
  have hmarks : ∀ c, marks c (s.log ++ [.register s.numConns]) = marks c s.log := by
    intro c
    rw [marks_append]
    simp [marks, Event.marked]
  have hsince : ∀ c, c < s.numConns →
      takesSince c (s.log ++ [.register s.numConns]) = takesSince c s.log := by
    intro c hc
    rw [takesSince_append (h.registered c hc)]
    exact List.append_nil _
  refine Fed.of_fed ?_ ?_ ?_
  · intro c hc
    rcases Nat.lt_succ_iff_lt_or_eq.mp hc with hlt | rfl
    · exact List.mem_append_left _ (h.registered c hlt)
    · exact List.mem_append_right _ List.mem_cons_self
  · intro c hc hatt
    show (Function.update s.conn s.numConns (Conn.fresh k) c).got c
      (s.log ++ [.register s.numConns]) ++ s.run.due c
      = takesSince c (s.log ++ [.register s.numConns])
    rcases Nat.lt_succ_iff_lt_or_eq.mp hc with hlt | rfl
    · have hne : c ≠ s.numConns := Nat.ne_of_lt hlt
      simp only [addNewConn, Function.update_of_ne hne] at hatt
      rw [Function.update_of_ne hne, hsince c hlt, ← h.fed c hlt hatt, Conn.got, hmarks c]
      rfl
    · -- No event before the registration registers it.
      have hafter : after (Event.registers s.numConns) (s.log ++ [.register s.numConns])
          = [] := by
        rw [after_append_of_forall]
        · simp [after, Event.registers]
        · intro e he
          cases e with
          | register d =>
              have hd : d ≠ s.numConns := fun hd => hunborn _ he (congrArg some hd)
              simp [Event.registers, hd]
          | _ => rfl
      rw [Function.update_self, Conn.got, hmarks, (trace_nil hunborn).1, takesSince, hafter, hpc]
      rfl
  · intro c hc hatt
    show marks c (s.log ++ [.register s.numConns])
      <+: takesSince c (s.log ++ [.register s.numConns])
    rcases Nat.lt_succ_iff_lt_or_eq.mp hc with hlt | rfl
    · rw [hmarks c, hsince c hlt]
      exact h.marked c hlt
    · rw [hmarks, (trace_nil hunborn).1]
      exact List.nil_prefix

/-- `socket.run` sends the block to connection `c`, which was due to get it. -/
theorem Fed.sent {s : State k} (h : Fed s) (hex : Exclusive s) {b : k.Index} {c : ConnId}
    {todo : Finset ConnId} {q : Chan k.Index k.numBlocks} (hpc : s.run = .trySend b c todo)
    (hq : (s.conn c).newBlocks.send b = .sent q) :
    Fed { s.setConn c { s.conn c with newBlocks := q } with run := .fanout b todo } := by
  have hnot := hex.distinct b c todo hpc
  refine h.frame (List.append_nil _).symm rfl rfl ?_ (fun _ _ => rfl)
  intro d _ hd
  dsimp only [State.setConn] at hd ⊢
  by_cases hdc : d = c
  · subst hdc
    rw [Function.update_self] at hd ⊢
    refine ⟨hd, ?_⟩
    simp [Conn.got, (Chan.send_eq_sent hq).2.2, hpc, RunPc.due, RunPc.targets, RunPc.block, hnot]
  · rw [Function.update_of_ne hdc] at hd ⊢
    refine ⟨hd, ?_⟩
    congr 1
    rw [hpc]
    refine RunPc.due_eq ?_ fun _ => rfl
    simp [RunPc.targets, hdc]

/-- A step of `socket.run` or `getNewBlocks` that leaves the connections alone and changes
nothing about what is due. -/
theorem Fed.frame_run {s s' : State k} {es : List (Event k)} (h : Fed s)
    (hlog : s'.log = s.log ++ es) (hes : takes es = []) (hmarks : ∀ c, marks c es = [])
    (hnum : s'.numConns = s.numConns) (hconn : s'.conn = s.conn)
    (hdue : ∀ c, s'.run.due c = s.run.due c) : Fed s' := by
  refine h.frame hlog hes hnum ?_ fun c _ => hmarks c
  intro c _ hc
  rw [hconn] at hc ⊢
  refine ⟨hc, ?_⟩
  rw [hdue c, hlog]
  simp only [Conn.got, marks_append, hmarks c, List.append_nil]

/-- Every move keeps the connections fed. -/
theorem Move.fed {s s' : State k} {l : Label k} (hm : Move s l s') (hinv : Inv s) (htr : Traced s)
    (h : Fed s) : Fed s' := by
  cases hm with
  | fill _ _ | dispatch _ _ =>
      exact h.frame_run rfl rfl (fun _ => rfl) rfl rfl fun _ => rfl
  | countZero _ _ | statusSet _ _ | notReady _ | waited _ | ref _ =>
      exact h.frame_run (List.append_nil _).symm rfl (fun _ => rfl) rfl rfl fun _ => rfl
  | register hpc => exact h.register htr hpc
  | take hpc hq => exact h.take hinv.life hpc
  | oldConn hpc hc hold =>
      rename_i c
      refine h.frame (List.append_nil _).symm rfl rfl ?_ fun _ _ => rfl
      intro d _ hd
      dsimp only [State.setPc, State.setConn] at hd ⊢
      by_cases hdc : d = c
      · subst hdc
        rw [Function.update_self] at hd
        cases hd
      · rw [Function.update_of_ne hdc] at hd ⊢
        exact ⟨hd, by rw [hpc]; rfl⟩
  | closeNewBlocks hpc hq =>
      rename_i c q
      refine h.frame (List.append_nil _).symm rfl rfl ?_ fun _ _ => rfl
      intro d _ hd
      dsimp only [State.setConn] at hd ⊢
      by_cases hdc : d = c
      · subst hdc
        rw [Function.update_self] at hd ⊢
        refine ⟨hd, ?_⟩
        simp only [Conn.got, (Chan.close_eq_some hq).2.2, hpc]
        rfl
      · rw [Function.update_of_ne hdc] at hd ⊢
        exact ⟨hd, by rw [hpc]; rfl⟩
  | delete hpc | endRange hpc =>
      exact h.frame_run (List.append_nil _).symm rfl (fun _ => rfl) rfl rfl
        fun _ => by rw [hpc]; rfl
  | visit hpc hc =>
      refine h.frame_run (List.append_nil _).symm rfl (fun _ => rfl) rfl rfl fun d => ?_
      rw [hpc]
      refine RunPc.due_eq ?_ fun _ => rfl
      simp [RunPc.targets, Finset.insert_erase hc]
  | sent hpc hq => exact h.sent hinv.exclusive hpc hq
  | skipped hpc hq =>
      -- There is always room, so the default branch is never taken.
      have hfull := Chan.send_eq_full hq
      have hroom := hinv.conn_newBlocks_length_lt hpc
      omega
  | runUnref hpc hr =>
      exact h.frame_run (List.append_nil _).symm rfl (fun _ => rfl) rfl rfl
        fun d => by rw [hpc]; exact (RunPc.due_resume _ _ d).1
  | runUnrefZero hpc hr =>
      exact h.frame_run (List.append_nil _).symm rfl (fun _ => rfl) rfl rfl
        fun d => by rw [hpc]; exact (RunPc.due_resume _ _ d).2
  | runClear hpc =>
      refine h.frame_run rfl rfl (fun _ => rfl) rfl rfl fun d => ?_
      rw [hpc]
      exact (RunPc.due_resume _ _ d).1.trans (RunPc.due_resume _ _ d).2.symm
  | connUnref hc hpc hr | connUnrefZero hc hpc hr =>
      rename_i c b next
      refine h.frame_conn (List.append_nil _).symm rfl (fun _ _ => rfl) rfl rfl rfl ?_ ?_
        fun _ => rfl
      · rw [hpc]
        cases next <;> rfl
      · intro _
        rw [List.append_nil, Conn.got, Conn.got, hpc]
        cases next <;> rfl
  | connClear hc hpc =>
      rename_i c b next
      have hlog : ((s.clear b).setPc c next.pc).log = s.log ++ [.clear b] := rfl
      refine h.frame_conn hlog rfl (fun _ _ => rfl) rfl rfl rfl ?_ ?_ fun _ => rfl
      · rw [hpc]
        cases next <;> rfl
      · intro _
        rw [Conn.got, Conn.got, hpc, marks_append]
        show marks c s.log ++ [] ++ _ ++ _ = _
        rw [List.append_nil]
        cases next <;> rfl
  | connRun hc hmove =>
      refine h.frame_conn rfl ?_ ?_ rfl rfl rfl hmove.attached_eq.1
        (fun hatt => hmove.got_eq hatt _) (fun hatt => hmove.marks_eq_nil hatt _)
      · exact List.filterMap_eq_nil_iff.mpr fun e he => (hmove.no_take e he).2
      · intro d hd
        exact (trace_nil fun e he hed => hd (hmove.events e he d hed)).1
  | connReads hc hmove =>
      obtain ⟨h1, h2, -, -⟩ := hmove.frame
      refine h.frame_conn (List.append_nil _).symm rfl (fun _ _ => rfl) rfl rfl rfl
        (by rw [h1]) ?_ fun _ => rfl
      intro _
      rw [List.append_nil, Conn.got, Conn.got, h1, h2]

/-- In every state of the daemon the connections have got what was taken for them. -/
theorem fed_of_reachable {s : State k} (h : (system k).Reachable s) : Fed s := by
  refine System.Reachable.invariant (fed_initial k) ?_ h
  intro s l s' hr hs hstep
  rcases (inv_of_reachable hr).step_cases hstep with hm | ⟨errno, -, -, rfl⟩
  · exact hm.fed (inv_of_reachable hr) (traced_of_reachable hr) hs
  · exact ⟨hs.registered, hs.fed, hs.marked⟩

/-- What `conn.run` has marked is part of what `socket.run` has taken for the connection. -/
theorem marks_le_takesSince {s : State k} (h : (system k).Reachable s) (c : ConnId) :
    marks c s.log <+: takesSince c s.log := by
  by_cases hc : c < s.numConns
  · exact (fed_of_reachable h).marked c hc
  · rw [(trace_nil ((traced_of_reachable h).unborn c (Nat.not_lt.mp hc))).1]
    exact List.nil_prefix

/-! ### The bytes -/

/-- The first `n` indexes a client that starts at block `j` should see, as bytes. -/
def ringBytes (k : Conf) (j n : Nat) : List UInt8 :=
  (List.range n).flatMap fun i => BigEndian.putUint32 (UInt32.ofNat ((j + i) % k.numBlocks))

/-- What `socket.run` has taken since `c` was registered is a stretch of the ring. -/
theorem encode_takesSince {s : State k} (h : Ordered s) {c : ConnId} {j : k.Index}
    (hj : (takesSince c s.log).head? = some j) :
    encode (takesSince c s.log) = ringBytes k j (takesSince c s.log).length := by
  obtain ⟨rest, hrest⟩ := List.head?_eq_some_iff.mp hj
  obtain ⟨pre, hpre⟩ := takesSince_suffix c s.log
  -- The stretch sits between the takes before the registration and the blocks still queued.
  have hsplit : (dispatches s.log).map Fin.val
      = pre.map Fin.val ++ j.val :: (rest ++ s.newBlocks.buf).map Fin.val := by
    rw [← h.queue, ← hpre, hrest]
    simp
  have hval : (takesSince c s.log).map Fin.val
      = (List.range (takesSince c s.log).length).map fun i => (j.val + i) % k.numBlocks := by
    refine List.ext_getElem (by simp) fun i hi hi' => ?_
    rw [List.length_map] at hi
    have hget : (j.val :: (rest ++ s.newBlocks.buf).map Fin.val)[i]?
        = some ((takesSince c s.log)[i]).val := by
      have happ : j.val :: (rest ++ s.newBlocks.buf).map Fin.val
          = (takesSince c s.log ++ s.newBlocks.buf).map Fin.val := by
        rw [hrest]
        simp
      rw [happ, List.getElem?_map, List.getElem?_append_left hi, List.getElem?_eq_getElem hi]
      rfl
    have := h.rotates.suffix hsplit i _ hget
    simpa using this
  calc encode (takesSince c s.log)
      = ((takesSince c s.log).map Fin.val).flatMap
          fun i => BigEndian.putUint32 (UInt32.ofNat i) := by
        rw [encode, List.flatMap_map]
    _ = ringBytes k j (takesSince c s.log).length := by
        rw [hval, List.flatMap_map, ringBytes]

/-- More indexes are more bytes. -/
theorem encode_mono {l₁ l₂ : List k.Index} (h : l₁ <+: l₂) : encode l₁ <+: encode l₂ := by
  obtain ⟨l, rfl⟩ := h
  rw [encode_append]
  exact List.prefix_append _ _

/-- The bytes written to a connection encode a part of what was taken for it. -/
theorem written_le_takes {s : State k} (h : (system k).Reachable s) (c : ConnId) :
    written c s.log <+: encode (takesSince c s.log) :=
  ((traced_of_reachable h).conn c).sent_le.trans (encode_mono (marks_le_takesSince h c))

/-- The bytes written to a connection are a prefix of the indexes `j`, `j + 1`, … modulo
`NumBlocks`, where `j` is the first block `socket.run` takes after registering it. Before
that block there are none. The non-blocking send to the connection finds room, and so does
the send of `getNewBlocks`. -/
theorem delivery_ordered {s : State k} (h : (system k).Reachable s) (c : ConnId) :
    ((takesSince c s.log).head? = none → written c s.log = []) ∧
    (∀ j, (takesSince c s.log).head? = some j → ∃ n, written c s.log <+: ringBytes k j n) ∧
    (∀ b todo, s.run = .trySend b c todo → (s.conn c).newBlocks.send b ≠ .full) ∧
    ∀ b, s.watcher = .send b → s.newBlocks.send b ≠ .full := by
  have hinv := inv_of_reachable h
  have hprefix := written_le_takes h c
  refine ⟨fun hnone => ?_, fun j hj => ?_, fun b todo hpc hfull => ?_, fun b hpc hfull => ?_⟩
  · rw [List.head?_eq_none_iff.mp hnone] at hprefix
    exact List.prefix_nil.mp hprefix
  · rw [encode_takesSince (ordered_of_reachable h) hj] at hprefix
    exact ⟨_, hprefix⟩
  · have := Chan.send_eq_full hfull
    have := hinv.conn_newBlocks_length_lt hpc
    omega
  · have := Chan.send_eq_full hfull
    have := hinv.newBlocks_length_lt hpc
    omega

/-- Two blocks are dispatched, and the client joins when the first has gone by. -/
def lateRun (b b' : k.Index) : List (Label k) :=
  .fill b 1 :: .fill b' 1 :: dispatchRun ++ dispatchRun ++
    [.run .newBlock, .run .go, .run .go, .run .go, .run .newConn] ++ fanOutRun 0 ++ writeRun 0

/-- A client that joins after block zero has gone by is sent block one first. -/
theorem delivery_ordered_late : ∃ s : State ⟨2, by decide⟩,
    (system ⟨2, by decide⟩).exec (State.initial _) (lateRun 0 1) = some s ∧
    written 0 s.log = [0, 0, 0, 1] ∧ ∃ n, written 0 s.log <+: ringBytes ⟨2, by decide⟩ 1 n := by
  obtain ⟨s, hs, hj, hwritten⟩ : ∃ s : State ⟨2, by decide⟩,
      (system ⟨2, by decide⟩).exec (State.initial _) (lateRun 0 1) = some s ∧
      (takesSince 0 s.log).head? = some 1 ∧ written 0 s.log = [0, 0, 0, 1] :=
    ⟨_, rfl, rfl, rfl⟩
  exact ⟨s, hs, hwritten, (delivery_ordered (System.reachable_of_exec hs) 0).2.1 1 hj⟩

end Testimony.Daemon
