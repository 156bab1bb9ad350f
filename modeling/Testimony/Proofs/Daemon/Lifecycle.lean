import Testimony.Proofs.Daemon.Moves

/-!
# `Testimony.Proofs.Daemon.Lifecycle`: registration, closing, draining

Where a connection is in its life decides which of its channels are open. The life has
three marks: `conn.run` hands the connection to `socket.run` (it is `attached` until then),
it has emptied `c.newBlocks` (`drained`), it has emptied `c.oldBlocks` (`readsDone`).

`Conn.Ok` is the part of the invariant that one connection carries alone. `Lifecycle` adds
the part that involves `socket.run`: a connection is in `currentConns` while it is attached
and while `socket.run` retires it, and its `newBlocks` is open while it is attached and
until `socket.run` has closed it.
-/

set_option autoImplicit false

namespace Testimony.Daemon

open Lib

variable {k : Conf}

/-- `conn.run` has not yet sent the connection on `oldConns`. -/
def ConnPc.attached : ConnPc k → Bool
  | .select | .record _ | .batch | .write _ | .close | .sendOld => true
  | .unref _ .select | .clear _ .select => true
  | _ => false

/-- `conn.run` has seen `c.newBlocks` closed and empty. -/
def ConnPc.drained : ConnPc k → Bool
  | .drainOld | .sweep _ | .returned => true
  | .unref _ (.sweep _) | .clear _ (.sweep _) => true
  | _ => false

/-- `conn.run` has seen `c.oldBlocks` closed and empty. -/
def ConnPc.readsDone : ConnPc k → Bool
  | .sweep _ | .returned => true
  | .unref _ (.sweep _) | .clear _ (.sweep _) => true
  | _ => false

/-- An `unref` on the way back: the next program counter has the marks of this one. -/
theorem Resume.pc_marks (b : k.Index) (next : Resume) :
    (next.pc : ConnPc k).attached = (ConnPc.unref b next).attached ∧
    (next.pc : ConnPc k).drained = (ConnPc.unref b next).drained ∧
    (next.pc : ConnPc k).readsDone = (ConnPc.unref b next).readsDone := by
  cases next <;> exact ⟨rfl, rfl, rfl⟩

/-- Between the two halves of an `unref` a connection stays in the same part of its life. -/
theorem ConnPc.clear_marks (b : k.Index) (next : Resume) :
    (ConnPc.clear b next).attached = (ConnPc.unref b next).attached ∧
    (ConnPc.clear b next).drained = (ConnPc.unref b next).drained ∧
    (ConnPc.clear b next).readsDone = (ConnPc.unref b next).readsDone := by
  cases next <;> exact ⟨rfl, rfl, rfl⟩

/-- A value `handleReads` may post: the index of a block, plus one. -/
def Posted (k : Conf) (v : Nat) : Prop := 0 < v ∧ v ≤ k.numBlocks

/-! ### One connection -/

/-- The invariant of one connection on its own. -/
structure Conn.Ok (cn : Conn k) : Prop where
  drained : cn.pc.drained = true → cn.newBlocks.closed = true ∧ cn.newBlocks.buf = []
  detached : cn.pc.drained = true → cn.pc.attached = false
  done_iff : cn.reads = .done ↔ cn.oldBlocks.closed = true
  posted : ∀ v ∈ cn.oldBlocks.buf, Posted k v
  posting : ∀ v, cn.reads = .post v → Posted k v
  readsDone : cn.pc.readsDone = true → cn.oldBlocks.closed = true ∧ cn.oldBlocks.buf = []

/-- A new connection is at its `select`, with both channels open and empty. -/
theorem Conn.fresh_ok (k : Conf) : (Conn.fresh k).Ok where
  drained h := by cases h
  detached h := by cases h
  done_iff := by simp [Conn.fresh]
  posted v hv := by simp [Conn.fresh] at hv
  posting v hv := by cases hv
  readsDone h := by cases h

/-- A step of `conn.run` that leaves `oldBlocks` alone keeps `Ok` when it has seen what the
marks of its new program counter stand for. -/
theorem Conn.Ok.moved {cn cn' : Conn k} (h : cn.Ok) (hold : cn'.oldBlocks = cn.oldBlocks)
    (hreads : cn'.reads = cn.reads)
    (hd : cn'.pc.drained = true → cn'.newBlocks.closed = true ∧ cn'.newBlocks.buf = [])
    (ha : cn'.pc.drained = true → cn'.pc.attached = false)
    (hr : cn'.pc.readsDone = true → cn'.oldBlocks.closed = true ∧ cn'.oldBlocks.buf = []) :
    cn'.Ok where
  drained := hd
  detached := ha
  done_iff := by rw [hreads, hold]; exact h.done_iff
  posted := by rw [hold]; exact h.posted
  posting := by rw [hreads]; exact h.posting
  readsDone := hr

/-- A value received from `oldBlocks` takes nothing from `Ok` but its own entry. -/
theorem Conn.Ok.recvOld {cn : Conn k} {v : Nat} {q : Chan Nat k.numBlocks} (h : cn.Ok)
    (hq : cn.oldBlocks.recv = .got v q) : { cn with oldBlocks := q }.Ok := by
  obtain ⟨hbuf, hclosed⟩ := Chan.recv_eq_got hq
  refine ⟨h.drained, h.detached, ?_, ?_, h.posting, ?_⟩
  · rw [hclosed]
    exact h.done_iff
  · intro w hw
    exact h.posted w (by rw [hbuf]; exact List.mem_cons_of_mem _ hw)
  · intro hr
    have := (h.readsDone hr).2
    rw [hbuf] at this
    cases this

/-- A step of `conn.run` keeps `Ok`. Only the steps into the drained and the swept part have
something to show, and they have just seen the channel closed and empty. -/
theorem Conn.RunMove.ok {c : ConnId} {cn cn' : Conn k} {ch : ConnChoice} {es : List (Event k)}
    (hm : cn.RunMove c ch cn' es) (h : cn.Ok) : cn'.Ok := by
  cases hm with
  | recvNew hpc hq | batchMore hpc hq | drainNew hpc hq => exact h.moved rfl rfl nofun nofun nofun
  | accept hpc hq hb => exact (h.recvOld hq).moved rfl rfl nofun nofun nofun
  | reject hpc hq hv => exact (h.recvOld hq).moved rfl rfl nofun nofun nofun
  | endOfReads hpc hq | mark hpc hb | batchDone hpc hq | writeError hpc | close hpc =>
      exact h.moved rfl rfl nofun nofun nofun
  | wrote hpc hn hle => split <;> exact h.moved rfl rfl nofun nofun nofun
  | drainNewDone hpc hq =>
      exact h.moved rfl rfl (fun _ => (Chan.recv_eq_closed.mp hq).symm) (fun _ => rfl) nofun
  | drainOld hpc hq => exact h.recvOld hq
  | drainOldDone hpc hq =>
      have hd := h.drained (by rw [hpc]; rfl)
      exact h.moved rfl rfl (fun _ => hd) (fun _ => rfl)
        (fun _ => (Chan.recv_eq_closed.mp hq).symm)
  | sweepHit hpc hb | sweepMiss hpc hb | sweepDone hpc hb =>
      have hd := h.drained (by rw [hpc]; rfl)
      have hr := h.readsDone (by rw [hpc]; rfl)
      exact h.moved rfl rfl (fun _ => hd) (fun _ => rfl) (fun _ => hr)

/-- The step after a word posts the index of a block, or posts nothing. -/
theorem posted_of_afterWord {num : UInt32} {v : Nat}
    (h : afterWord (classify k.numBlocks num) = .post v) : Posted k v := by
  unfold classify at h
  split at h
  · generalize (Wire.tlFrom num).2 = n at h
    cases n <;> cases h
  · split at h
    · cases h
    · simp only [afterWord, ReadsPc.post.injEq] at h
      unfold Posted
      omega

/-- Behind a word `handleReads` has not returned yet. -/
theorem afterWord_ne_done (w : Word) : afterWord w ≠ .done := by
  match w with
  | .tlv _ 0 => nofun
  | .tlv _ (_ + 1) => nofun
  | .invalid _ => nofun
  | .block _ => nofun

/-- Changing where `handleReads` stands, away from its end. -/
theorem Conn.Ok.setReads {cn : Conn k} {pc : ReadsPc} (h : cn.Ok) (hpc : cn.reads ≠ .done)
    (hpc' : pc ≠ .done) (hpost : ∀ v, pc = .post v → Posted k v) :
    { cn with reads := pc }.Ok where
  drained := h.drained
  detached := h.detached
  done_iff := by
    have := h.done_iff
    constructor
    · intro hd; exact absurd hd hpc'
    · intro hc; exact absurd (this.mpr hc) hpc
  posted := h.posted
  posting := hpost
  readsDone := h.readsDone

/-- A step of `handleReads` keeps `Ok`. -/
theorem Conn.ReadsMove.ok {cn cn' : Conn k} {inp : ReadInput} (hm : cn.ReadsMove inp cn')
    (h : cn.Ok) : cn'.Ok := by
  cases hm with
  | word hpc _ _ =>
      exact h.setReads (by simp [hpc]) (afterWord_ne_done _) fun v hv => posted_of_afterWord hv
  | short hpc _ _ _ => exact h.setReads (by simp [hpc]) nofun nofun
  | stop hpc _ =>
      refine h.setReads ?_ nofun nofun
      rcases hpc with hpc | ⟨n, hpc⟩ <;> simp [hpc]
  | value hpc _ _ _ =>
      split <;> exact h.setReads (by simp [hpc]) nofun nofun
  | post hpc hq =>
      obtain ⟨hopen, hopen', hbuf⟩ := Chan.send_eq_sent hq
      refine ⟨h.drained, h.detached, ?_, ?_, nofun, ?_⟩
      · simp [hopen']
      · intro w hw
        rw [hbuf, List.mem_append, List.mem_singleton] at hw
        rcases hw with hw | rfl
        · exact h.posted w hw
        · exact h.posting _ hpc
      · intro hr
        have := (h.readsDone hr).1
        rw [hopen] at this
        cases this
  | closeOldBlocks hpc hq =>
      obtain ⟨hopen, hclosed, hbuf⟩ := Chan.close_eq_some hq
      refine ⟨h.drained, h.detached, by simp [hclosed], by rw [hbuf]; exact h.posted, nofun, ?_⟩
      intro hr
      have := (h.readsDone hr).1
      rw [hopen] at this
      cases this

/-- Inside its connection, `conn.run` neither leaves nor closes anything `socket.run` owns. -/
theorem Conn.RunMove.attached_eq {c : ConnId} {cn cn' : Conn k} {ch : ConnChoice}
    {es : List (Event k)}
    (hm : cn.RunMove c ch cn' es) :
    cn'.pc.attached = cn.pc.attached ∧ cn'.newBlocks.closed = cn.newBlocks.closed := by
  cases hm with
  | recvNew hpc hq | batchMore hpc hq | drainNew hpc hq =>
      exact ⟨by rw [hpc]; rfl, (Chan.recv_eq_got hq).2⟩
  | wrote hpc hn hle =>
      refine ⟨?_, rfl⟩
      rw [hpc]
      split <;> rfl
  | drainOld hpc hq => exact ⟨rfl, rfl⟩
  | accept hpc hq hb | reject hpc hq hv | endOfReads hpc hq | mark hpc hb | batchDone hpc hq
  | writeError hpc | close hpc | drainNewDone hpc hq | drainOldDone hpc hq | sweepHit hpc hb
  | sweepMiss hpc hb | sweepDone hpc hb => exact ⟨by rw [hpc]; rfl, rfl⟩

/-- A step of `handleReads` changes nothing that belongs to `conn.run`. -/
theorem Conn.ReadsMove.frame {cn cn' : Conn k} {inp : ReadInput} (hm : cn.ReadsMove inp cn') :
    cn'.pc = cn.pc ∧ cn'.newBlocks = cn.newBlocks ∧ cn'.outstanding = cn.outstanding ∧
      cn'.out = cn.out := by
  cases hm <;> exact ⟨rfl, rfl, rfl, rfl⟩

/-! ### The socket -/

/-- The connection whose `newBlocks` `socket.run` is about to close. -/
def RunPc.closing : RunPc k → Option ConnId
  | .closeNewBlocks c => some c
  | _ => none

/-- The connection `socket.run` is about to delete from `currentConns`. -/
def RunPc.deleting : RunPc k → Option ConnId
  | .delete c => some c
  | _ => none

/-- Only one statement of `socket.run` closes the channel of connection `c`. -/
theorem RunPc.eq_of_closing {pc : RunPc k} {c : ConnId} (h : pc.closing = some c) :
    pc = .closeNewBlocks c := by
  cases pc <;> cases h
  rfl

/-- Only one statement of `socket.run` deletes connection `c`. -/
theorem RunPc.eq_of_deleting {pc : RunPc k} {c : ConnId} (h : pc.deleting = some c) :
    pc = .delete c := by
  cases pc <;> cases h
  rfl

/-- The connections the current block still goes to. -/
def RunPc.targets : RunPc k → Finset ConnId
  | .fanout _ todo => todo
  | .trySend _ c todo => insert c todo
  | .unref _ (some todo) | .clear _ (some todo) => todo
  | _ => ∅

/-- Behind an `unref` `socket.run` closes and deletes nothing, and has the same connections before
it. -/
theorem RunPc.resume_fanout (b : k.Index) (todo : Option (Finset ConnId)) :
    (RunPc.resume b todo).closing = none ∧ (RunPc.resume b todo).deleting = none ∧
      (RunPc.resume b todo).targets = (RunPc.unref b todo).targets := by
  cases todo <;> exact ⟨rfl, rfl, rfl⟩

/-- Between the two halves of an `unref` it has the same connections before it. -/
theorem RunPc.clear_targets (b : k.Index) (todo : Option (Finset ConnId)) :
    (RunPc.clear b todo).targets = (RunPc.unref b todo).targets := by
  cases todo <;> rfl

/-- The life cycle invariant of the socket. -/
structure Lifecycle (s : State k) : Prop where
  newBlocks_open : s.newBlocks.closed = false
  ok : ∀ c, (s.conn c).Ok
  open_iff : ∀ c, (s.conn c).newBlocks.closed = false ↔
    (s.conn c).pc.attached = true ∨ s.run.closing = some c
  current_iff : ∀ c, c ∈ s.currentConns ↔ c < s.numConns ∧
    ((s.conn c).pc.attached = true ∨ s.run.closing = some c ∨ s.run.deleting = some c)
  retiring : ∀ c, s.run.closing = some c ∨ s.run.deleting = some c →
    c < s.numConns ∧ (s.conn c).pc.attached = false
  targets : s.run.targets ⊆ s.currentConns

/-- At the start there is no connection, and `newBlocks` is open. -/
theorem lifecycle_initial (k : Conf) : Lifecycle (State.initial k) where
  newBlocks_open := rfl
  ok _ := Conn.fresh_ok k
  open_iff c := by simp [State.initial, Conn.fresh, ConnPc.attached]
  current_iff c := by simp [State.initial]
  retiring c h := by simp [State.initial, RunPc.closing, RunPc.deleting] at h
  targets := by simp [State.initial, RunPc.targets]

/-- `socket.run` only sends to current connections. -/
theorem Lifecycle.current_of_trySend {s : State k} (h : Lifecycle s) {b : k.Index} {c : ConnId}
    {todo : Finset ConnId} (hpc : s.run = .trySend b c todo) : c ∈ s.currentConns := by
  refine h.targets ?_
  rw [hpc]
  exact Finset.mem_insert_self _ _

/-- `socket.run` sends only to connections that exist. -/
theorem Lifecycle.lt_of_trySend {s : State k} (h : Lifecycle s) {b : k.Index} {c : ConnId}
    {todo : Finset ConnId} (hpc : s.run = .trySend b c todo) : c < s.numConns :=
  ((h.current_iff c).mp (h.current_of_trySend hpc)).1

/-- A step that registers and retires no connection, and leaves every connection attached or
not and open or not as it was, keeps the life cycle. -/
theorem Lifecycle.frame {s s' : State k} (h : Lifecycle s)
    (hnew : s'.newBlocks.closed = false) (hcur : s'.currentConns = s.currentConns)
    (hnum : s'.numConns = s.numConns) (hclosing : s'.run.closing = s.run.closing)
    (hdeleting : s'.run.deleting = s.run.deleting)
    (htargets : s'.run.targets ⊆ s.currentConns)
    (hconn : ∀ c, (s'.conn c).Ok ∧ (s'.conn c).pc.attached = (s.conn c).pc.attached ∧
      (s'.conn c).newBlocks.closed = (s.conn c).newBlocks.closed) : Lifecycle s' where
  newBlocks_open := hnew
  ok c := (hconn c).1
  open_iff c := by rw [(hconn c).2.2, (hconn c).2.1, hclosing]; exact h.open_iff c
  current_iff c := by
    rw [hcur, hnum, (hconn c).2.1, hclosing, hdeleting]
    exact h.current_iff c
  retiring c hc := by
    rw [hnum, (hconn c).2.1]
    rw [hclosing, hdeleting] at hc
    exact h.retiring c hc
  targets := by rw [hcur]; exact htargets

/-- The frame condition on connections, when one of them changes. -/
theorem Lifecycle.frame_conn {s : State k} (h : Lifecycle s) {c : ConnId} {cn : Conn k}
    (hok : cn.Ok) (hatt : cn.pc.attached = (s.conn c).pc.attached)
    (hclosed : cn.newBlocks.closed = (s.conn c).newBlocks.closed) (d : ConnId) :
    (Function.update s.conn c cn d).Ok ∧
      (Function.update s.conn c cn d).pc.attached = (s.conn d).pc.attached ∧
      (Function.update s.conn c cn d).newBlocks.closed = (s.conn d).newBlocks.closed := by
  by_cases hd : d = c
  · subst hd
    rw [Function.update_self]
    exact ⟨hok, hatt, hclosed⟩
  · rw [Function.update_of_ne hd]
    exact ⟨h.ok d, rfl, rfl⟩

/-- The frame condition on connections, when none changes. -/
theorem Lifecycle.frame_same {s : State k} (h : Lifecycle s) (d : ConnId) :
    (s.conn d).Ok ∧ (s.conn d).pc.attached = (s.conn d).pc.attached ∧
      (s.conn d).newBlocks.closed = (s.conn d).newBlocks.closed :=
  ⟨h.ok d, rfl, rfl⟩

/-- `addNewConn` keeps the life cycle: the new connection is attached and current. -/
theorem Lifecycle.register {s : State k} (h : Lifecycle s) (hpc : s.run = .select) :
    Lifecycle (addNewConn s) where
  newBlocks_open := h.newBlocks_open
  ok c := by
    by_cases hc : c = s.numConns
    · subst hc
      simpa [addNewConn] using Conn.fresh_ok k
    · simpa [addNewConn, Function.update_of_ne hc] using h.ok c
  open_iff c := by
    by_cases hc : c = s.numConns
    · subst hc
      simp [addNewConn, Conn.fresh, ConnPc.attached]
    · simpa [addNewConn, Function.update_of_ne hc] using h.open_iff c
  current_iff c := by
    by_cases hc : c = s.numConns
    · subst hc
      simp [addNewConn, Conn.fresh, ConnPc.attached]
    · have := h.current_iff c
      simp only [addNewConn, Finset.mem_insert, hc, false_or, this, Function.update_of_ne hc]
      have hlt : c < s.numConns + 1 ↔ c < s.numConns :=
        ⟨fun h => Nat.lt_of_le_of_ne (Nat.le_of_lt_succ h) hc, Nat.lt_succ_of_lt⟩
      rw [hlt]
  retiring c hc := by
    simp [addNewConn, hpc, RunPc.closing, RunPc.deleting] at hc
  targets := by
    simp [addNewConn, hpc, RunPc.targets]

/-- The rendezvous on `oldConns` detaches the connection and makes it the one `socket.run`
closes next. -/
theorem Lifecycle.oldConn {s : State k} {c : ConnId} (h : Lifecycle s) (hpc : s.run = .select)
    (hc : c < s.numConns) (hold : (s.conn c).pc = .sendOld) :
    Lifecycle { s.setPc c .drainNew with run := .closeNewBlocks c } where
  newBlocks_open := h.newBlocks_open
  ok d := by
    by_cases hd : d = c
    · subst hd
      have hok : { s.conn d with pc := .drainNew }.Ok :=
        (h.ok d).moved rfl rfl nofun nofun nofun
      simpa [State.setPc, State.setConn] using hok
    · simpa [State.setPc, State.setConn, Function.update_of_ne hd] using h.ok d
  open_iff d := by
    by_cases hd : d = c
    · subst hd
      have := (h.open_iff d).mpr (.inl (by rw [hold]; rfl))
      simp [State.setPc, State.setConn, RunPc.closing, this]
    · have := h.open_iff d
      simp [hpc, RunPc.closing] at this
      simp [State.setPc, State.setConn, Function.update_of_ne hd, RunPc.closing, this, Ne.symm hd]
  current_iff d := by
    have := h.current_iff d
    by_cases hd : d = c
    · subst hd
      have hmem := this.mpr ⟨hc, .inl (by rw [hold]; rfl)⟩
      simp [State.setPc, State.setConn, RunPc.closing, hmem, hc]
    · simp only [hpc, RunPc.closing, RunPc.deleting, reduceCtorEq, or_false] at this
      simp [State.setPc, State.setConn, Function.update_of_ne hd, RunPc.closing, RunPc.deleting,
        this, Ne.symm hd]
  retiring d hd := by
    simp only [RunPc.closing, RunPc.deleting, Option.some.injEq, reduceCtorEq, or_false] at hd
    subst hd
    exact ⟨hc, by simp [State.setPc, State.setConn, ConnPc.attached]⟩
  targets := by simp [RunPc.targets]

/-- `close(c.newBlocks)` in `socket.run`. -/
theorem Lifecycle.closeNewBlocks {s : State k} {c : ConnId} {q : Chan k.Index k.numBlocks}
    (h : Lifecycle s) (hpc : s.run = .closeNewBlocks c)
    (hq : (s.conn c).newBlocks.close = some q) :
    Lifecycle { s.setConn c { s.conn c with newBlocks := q } with run := .delete c } := by
  obtain ⟨hopen, hclosed, hbuf⟩ := Chan.close_eq_some hq
  obtain ⟨hc, hatt⟩ := h.retiring c (.inl (by rw [hpc]; rfl))
  have hcur := (h.current_iff c).mpr ⟨hc, .inr (.inl (by rw [hpc]; rfl))⟩
  refine ⟨h.newBlocks_open, ?_, ?_, ?_, ?_, by simp [RunPc.targets]⟩
  · intro d
    by_cases hd : d = c
    · subst hd
      have hok := h.ok d
      -- A drained connection has a closed channel, and this one was open.
      have hnot : (s.conn d).pc.drained ≠ true := fun hdr => by
        have := (hok.drained hdr).1
        rw [hopen] at this
        cases this
      have hok' : { s.conn d with newBlocks := q }.Ok :=
        hok.moved rfl rfl (fun hdr => absurd hdr hnot) hok.detached hok.readsDone
      simpa [State.setConn] using hok'
    · simpa [State.setConn, Function.update_of_ne hd] using h.ok d
  · intro d
    by_cases hd : d = c
    · subst hd
      simp [State.setConn, hclosed, hatt, RunPc.closing]
    · have := h.open_iff d
      simp only [hpc, RunPc.closing, Option.some.injEq, Ne.symm hd, or_false] at this
      simp [State.setConn, Function.update_of_ne hd, RunPc.closing, this]
  · intro d
    by_cases hd : d = c
    · subst hd
      simp [State.setConn, hcur, hc, RunPc.deleting]
    · have := h.current_iff d
      simp only [hpc, RunPc.closing, RunPc.deleting, Option.some.injEq, Ne.symm hd, reduceCtorEq,
        or_false] at this
      simp [State.setConn, Function.update_of_ne hd, RunPc.closing, RunPc.deleting, this,
        Ne.symm hd]
  · intro d hd
    simp only [RunPc.closing, RunPc.deleting, Option.some.injEq, reduceCtorEq, false_or] at hd
    subst hd
    exact ⟨hc, by simpa [State.setConn] using hatt⟩

/-- `delete(s.currentConns, c)` in `socket.run`. -/
theorem Lifecycle.delete {s : State k} {c : ConnId} (h : Lifecycle s) (hpc : s.run = .delete c) :
    Lifecycle { s with currentConns := s.currentConns.erase c, run := .select } where
  newBlocks_open := h.newBlocks_open
  ok := h.ok
  open_iff d := by simpa [hpc, RunPc.closing] using h.open_iff d
  current_iff d := by
    obtain ⟨hc, hatt⟩ := h.retiring c (.inr (by rw [hpc]; rfl))
    have := h.current_iff d
    by_cases hd : d = c
    · subst hd
      simp [hatt, RunPc.closing, RunPc.deleting]
    · simp only [hpc, RunPc.closing, RunPc.deleting, Option.some.injEq, Ne.symm hd, reduceCtorEq,
        or_false] at this
      simp [hd, this, RunPc.closing, RunPc.deleting]
  retiring d hd := by simp [RunPc.closing, RunPc.deleting] at hd
  targets := by simp [RunPc.targets]

/-- A block queued for a connection: its channel was open, so it is not drained. -/
theorem Conn.Ok.sent {cn : Conn k} {b : k.Index} {q : Chan k.Index k.numBlocks} (h : cn.Ok)
    (hq : cn.newBlocks.send b = .sent q) : { cn with newBlocks := q }.Ok := by
  refine h.moved rfl rfl (fun hd => ?_) h.detached h.readsDone
  have := (h.drained hd).1
  rw [(Chan.send_eq_sent hq).1] at this
  cases this

/-- The way from an `unref` to its `clear` or to the next program counter keeps `Ok`. -/
theorem Conn.Ok.setPc {cn : Conn k} {pc : ConnPc k} (h : cn.Ok)
    (hpc : pc.attached = cn.pc.attached ∧ pc.drained = cn.pc.drained ∧
      pc.readsDone = cn.pc.readsDone) : { cn with pc := pc }.Ok := by
  obtain ⟨ha, hd, hr⟩ := hpc
  refine h.moved rfl rfl ?_ ?_ ?_
  · rw [hd]; exact h.drained
  · rw [hd, ha]; exact h.detached
  · rw [hr]; exact h.readsDone

/-- Every move keeps the life cycle. -/
theorem Move.lifecycle {s s' : State k} {l : Label k} (hm : Move s l s') (h : Lifecycle s) :
    Lifecycle s' := by
  cases hm with
  | fill _ _ | countZero _ _ | statusSet _ _ | notReady _ | waited _ | ref _ =>
      exact h.frame h.newBlocks_open rfl rfl rfl rfl h.targets h.frame_same
  | dispatch hpc hq =>
      exact h.frame (Chan.send_eq_sent hq).2.1 rfl rfl rfl rfl h.targets h.frame_same
  | register hpc => exact h.register hpc
  | oldConn hpc hc hold => exact h.oldConn hpc hc hold
  | take hpc hq =>
      refine h.frame ?_ rfl rfl (by rw [hpc]; rfl) (by rw [hpc]; rfl) (Finset.Subset.refl _)
        h.frame_same
      exact (Chan.recv_eq_got hq).2.trans h.newBlocks_open
  | closeNewBlocks hpc hq => exact h.closeNewBlocks hpc hq
  | delete hpc => exact h.delete hpc
  | visit hpc hc =>
      have ht : _ ⊆ s.currentConns := hpc ▸ h.targets
      refine h.frame h.newBlocks_open rfl rfl (by rw [hpc]; rfl) (by rw [hpc]; rfl) ?_ h.frame_same
      simpa [RunPc.targets, Finset.insert_erase hc] using ht
  | endRange hpc =>
      exact h.frame h.newBlocks_open rfl rfl (by rw [hpc]; rfl) (by rw [hpc]; rfl)
        (Finset.empty_subset _) h.frame_same
  | sent hpc hq =>
      have ht : _ ⊆ s.currentConns := hpc ▸ h.targets
      refine h.frame h.newBlocks_open rfl rfl (by rw [hpc]; rfl) (by rw [hpc]; rfl)
        ((Finset.subset_insert _ _).trans ht) ?_
      obtain ⟨hopen, hopen', -⟩ := Chan.send_eq_sent hq
      exact h.frame_conn ((h.ok _).sent hq) rfl (hopen'.trans hopen.symm)
  | skipped hpc hq =>
      have ht : _ ⊆ s.currentConns := hpc ▸ h.targets
      exact h.frame h.newBlocks_open rfl rfl (by rw [hpc]; rfl) (by rw [hpc]; rfl)
        ((Finset.subset_insert _ _).trans ht) h.frame_same
  -- After an `unref` the loop over the connections goes on where it was.
  | runUnref hpc hr =>
      rename_i b todo
      obtain ⟨h1, h2, h3⟩ := RunPc.resume_fanout b todo
      have ht := h.targets
      rw [hpc, ← h3] at ht
      exact h.frame h.newBlocks_open rfl rfl (by rw [hpc]; exact h1) (by rw [hpc]; exact h2) ht
        h.frame_same
  | runUnrefZero hpc hr =>
      have ht := h.targets
      rw [hpc, ← RunPc.clear_targets] at ht
      exact h.frame h.newBlocks_open rfl rfl (by rw [hpc]; rfl) (by rw [hpc]; rfl) ht h.frame_same
  | runClear hpc =>
      rename_i b todo
      obtain ⟨h1, h2, h3⟩ := RunPc.resume_fanout b todo
      have ht := h.targets
      rw [hpc, RunPc.clear_targets, ← h3] at ht
      exact h.frame h.newBlocks_open rfl rfl (by rw [hpc]; exact h1) (by rw [hpc]; exact h2) ht
        h.frame_same
  -- A connection that gives a block up stays where it is in its life.
  | connUnref hc hpc hr =>
      rename_i c b next
      have hmarks := Resume.pc_marks b next
      rw [← hpc] at hmarks
      exact h.frame h.newBlocks_open rfl rfl rfl rfl h.targets
        (h.frame_conn ((h.ok c).setPc hmarks) hmarks.1 rfl)
  | connUnrefZero hc hpc hr =>
      rename_i c b next
      have hmarks := ConnPc.clear_marks b next
      rw [← hpc] at hmarks
      exact h.frame h.newBlocks_open rfl rfl rfl rfl h.targets
        (h.frame_conn ((h.ok c).setPc hmarks) hmarks.1 rfl)
  | connClear hc hpc =>
      rename_i c b next
      have hmarks := Resume.pc_marks b next
      have hclear := ConnPc.clear_marks b next
      rw [← hclear.1, ← hclear.2.1, ← hclear.2.2, ← hpc] at hmarks
      exact h.frame h.newBlocks_open rfl rfl rfl rfl h.targets
        (h.frame_conn ((h.ok c).setPc hmarks) hmarks.1 rfl)
  | connRun hc hmove =>
      exact h.frame h.newBlocks_open rfl rfl rfl rfl h.targets
        (h.frame_conn (hmove.ok (h.ok _)) hmove.attached_eq.1 hmove.attached_eq.2)
  | connReads hc hmove =>
      obtain ⟨hpc, hnew, -, -⟩ := hmove.frame
      exact h.frame h.newBlocks_open rfl rfl rfl rfl h.targets
        (h.frame_conn (hmove.ok (h.ok _)) (by rw [hpc]) (by rw [hnew]))

end Testimony.Daemon
