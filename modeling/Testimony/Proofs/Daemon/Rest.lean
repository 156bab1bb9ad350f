import Testimony.Proofs.Daemon.Projection
import Testimony.Proofs.Daemon.Teardown
import Testimony.Proofs.Daemon.Work

/-!
# `Testimony.Proofs.Daemon.Rest`: the daemon at rest

`Testimony.Proofs.Daemon.Work` bounds what a socket does by itself. This file says where it comes to
rest. Clients differ in what they do for it: some read what they are sent, the socket of a slow
client takes no bytes, and a client that is gone has hung up. `Due` are the steps that the
goroutines can take then, and a socket is at rest when none of them is enabled and the block that
`getNewBlocks` waits for is not ready (`AtRest`).

Every run can be continued to such a state (`comes_to_rest`). There `socket.run` is in its `select`
with nothing queued, the connection of a client that is gone has returned, and every other one waits
for its client and for nothing else (`Idle`). So whatever the slow clients do, everybody else whose
connection is not closed has been sent every block that was taken for it (`rest_delivers`). When all
clients are gone the whole ring is the kernel's again (`rest_releases`).

For the last two the kernel fills the ring in order, as `getNewBlocks` expects (`FillsInOrder`).
-/

set_option autoImplicit false

namespace Testimony.Daemon

open Lib

variable {k : Conf}

/-! ### Writes are never empty -/

/-- There is something in a batch, and something left to write in a write. -/
structure Conn.Writes (cn : Conn k) : Prop where
  batch : cn.pc = .batch → cn.out ≠ []
  write : ∀ rest, cn.pc = .write rest → rest ≠ []

/-- Outside a write there is nothing to check. -/
theorem Conn.Writes.of_pc {cn : Conn k} (h : ∀ rest, cn.pc ≠ .batch ∧ cn.pc ≠ .write rest) :
    cn.Writes :=
  ⟨fun hpc => absurd hpc (h []).1, fun rest hpc => absurd hpc (h rest).2⟩

/-- A step of `conn.run` leaves something in a batch and something to write. -/
theorem Conn.RunMove.writes {c : ConnId} {cn cn' : Conn k} {ch : ConnChoice} {es : List (Event k)}
    (hm : cn.RunMove c ch cn' es) (h : cn.Writes) : cn'.Writes := by
  cases hm with
  | mark _ _ =>
      refine ⟨fun _ hnil => ?_, by rintro rest ⟨⟩⟩
      have := congrArg List.length hnil
      simp at this
  | batchDone hpc _ =>
      refine ⟨by rintro ⟨⟩, fun rest hrest => ?_⟩
      cases hrest
      exact h.batch hpc
  | wrote _ _ _ =>
      refine ⟨fun hpc => ?_, fun rest hpc => ?_⟩ <;> dsimp only at hpc <;> split at hpc <;>
        cases hpc
      assumption
  | drainOld _ _ => exact ⟨h.batch, h.write⟩
  | recvNew _ _ | accept _ _ _ | reject _ _ _ | endOfReads _ _ | batchMore _ _ | writeError _
  | close _ | drainNew _ _ | drainNewDone _ _ | drainOldDone _ _ | sweepHit _ _ | sweepMiss _ _
  | sweepDone _ _ => exact .of_pc fun _ => ⟨by rintro ⟨⟩, by rintro ⟨⟩⟩

/-- Every move keeps `Conn.Writes`, for every connection. -/
theorem Move.writes {s s' : State k} {l : Label k} (hm : Move s l s')
    (h : ∀ c, (s.conn c).Writes) (c : ConnId) : (s'.conn c).Writes := by
  have hupdate : ∀ (d : ConnId) (cn : Conn k), cn.Writes →
      (Function.update s.conn d cn c).Writes := by
    intro d cn hcn
    by_cases hd : c = d
    · subst hd
      rwa [Function.update_self]
    · rw [Function.update_of_ne hd]
      exact h c
  have hresume : ∀ (cn : Conn k) (next : Resume), { cn with pc := next.pc }.Writes := by
    intro cn next
    cases next <;> exact .of_pc fun _ => ⟨by rintro ⟨⟩, by rintro ⟨⟩⟩
  cases hm with
  | fill _ _ | countZero _ _ | statusSet _ _ | notReady _ | waited _ | ref _ | dispatch _ _
  | take _ _ | delete _ | visit _ _ | endRange _ | skipped _ _ | runUnref _ _
  | runUnrefZero _ _ | runClear _ => exact h c
  | register _ | oldConn _ _ _ | connUnrefZero _ _ _ =>
      exact hupdate _ _ (.of_pc fun _ => ⟨by rintro ⟨⟩, by rintro ⟨⟩⟩)
  | closeNewBlocks _ _ | sent _ _ => exact hupdate _ _ ⟨(h _).batch, (h _).write⟩
  | connUnref _ _ _ | connClear _ _ => exact hupdate _ _ (hresume _ _)
  | connRun _ hmove => exact hupdate _ _ (hmove.writes (h _))
  | connReads _ hmove =>
      refine hupdate _ _ ?_
      cases hmove <;> exact ⟨(h _).batch, (h _).write⟩

/-- In every state of the daemon a connection that writes has something to write. -/
theorem writes_of_reachable {s : State k} (h : (system k).Reachable s) (c : ConnId) :
    (s.conn c).Writes :=
  invariant_of_move (P := fun s => ∀ c, (s.conn c).Writes)
    (fun _ => .of_pc fun _ => ⟨by rintro ⟨⟩, by rintro ⟨⟩⟩) (fun _ _ hs => hs)
    (fun _ _ _ _ hs hm => hm.writes hs) h c

/-! ### What is due -/

/-- The steps that are due, whatever the kernel and the clients do. The socket of a client in `slow`
takes no bytes. To read from a client in `gone`, or to write to it, is an error. -/
def Due (slow gone : Set ConnId) (s : State k) : Label k → Prop
  | .fill _ _ => False
  | .getNewBlocks errno => errno = 0 ∧ s.polls (.getNewBlocks errno) = false
  | .run ch => ch ≠ .newConn
  | .conn c (.wrote _) => c ∉ slow
  | .conn c .writeError => c ∈ gone
  | .conn _ _ => True
  | .reads _ (.data _) => False
  | .reads c _ => (s.conn c).reads.Reading → c ∈ gone ∨ (s.conn c).closed = true

/-- No step is due that is enabled. -/
def Still (slow gone : Set ConnId) (s : State k) : Prop :=
  ∀ l, Due slow gone s l → step s l = none

/-- The daemon has nothing to do: it is still, and the block that `getNewBlocks` watches is not
ready. -/
structure AtRest (slow gone : Set ConnId) (s : State k) : Prop where
  still : Still slow gone s
  notReady : ¬ (s.r s.watcher.block = 0 ∧ s.blockStatus s.watcher.block ≠ 0)

variable {slow gone : Set ConnId} {s : State k}

/-- A step that is due needs nothing from outside. -/
theorem Due.external_eq {l : Label k} (h : Due slow gone s l) : l.external = false := by
  cases l with
  | fill _ _ => exact h.elim
  | getNewBlocks errno => simp [Label.external, h.1]
  | run ch => cases ch <;> first | rfl | exact absurd rfl h
  | conn _ _ => rfl
  | reads _ inp => cases inp <;> first | rfl | exact h.elim

/-- A step that is due is no poll. -/
theorem Due.polls_eq {l : Label k} (h : Due slow gone s l) : s.polls l = false := by
  cases l with
  | getNewBlocks errno => exact h.2
  | _ => rfl

/-- A step that is due loads no status. -/
theorem Due.noStaleLoad {l : Label k} (h : Due slow gone s l) : NoStaleLoad s l := by
  cases l with
  | getNewBlocks errno =>
      have hpoll := h.2
      unfold NoStaleLoad
      simp only [State.polls] at hpoll
      split at hpoll
      · rename_i hpc
        rw [hpc]
        trivial
      · rename_i hpc
        rw [hpc]
        trivial
      · cases hpoll
  | _ => trivial

/-- In a state that is still, no step that is due can be taken. -/
theorem Still.not_isSome (h : Still slow gone s) {l : Label k} (hl : Due slow gone s l)
    (hsome : (step s l).isSome = true) : False := by
  rw [h l hl] at hsome
  cases hsome

/-! ### Where the goroutines are when nothing is due -/

/-- `socket.run` is at its `select`. -/
theorem Still.run_eq (h : Still slow gone s) (hp : s.panic = none) : s.run = .select := by
  by_contra hsel
  obtain ⟨ch, hch⟩ := run_enabled hp hsel
  refine h.not_isSome (l := .run ch) ?_ hch
  -- A new connection is taken in the `select` only.
  rintro rfl
  rw [step_run hp] at hch
  cases hrun : s.run with
  | select => exact hsel hrun
  | _ => simp [runStep, hrun] at hch

/-- `socket.run` has taken everything that was sent to it. -/
theorem Still.newBlocks_eq (h : Still slow gone s) (hp : s.panic = none) :
    s.newBlocks.buf = [] := by
  have hrun := h.run_eq hp
  have hnone : runStep s .newBlock = none := step_run hp .newBlock ▸ h (.run .newBlock) nofun
  simp only [runStep, hrun] at hnone
  cases hq : s.newBlocks.recv with
  | got b q => rw [hq] at hnone; cases hnone
  | closed => rw [hq] at hnone; cases hnone
  | empty => exact (Chan.recv_eq_empty.mp hq).1

/-- `getNewBlocks` can only poll. -/
theorem Still.polls_eq (h : Still slow gone s) (hp : s.panic = none) (hinv : Inv s) :
    s.polls (.getNewBlocks 0) = true := by
  by_contra hpoll
  have hnone := h (.getNewBlocks 0) ⟨rfl, Bool.eq_false_of_not_eq_true hpoll⟩
  simp only [step, hp, Option.isSome_none, Bool.false_eq_true, if_false, getNewBlocksStep] at hnone
  cases hpc : s.watcher with
  | ref b => simp [hpc] at hnone
  | send b =>
      have hlt := hinv.newBlocks_length_lt hpc
      simp [hpc, Chan.send, hinv.life.newBlocks_open, hlt] at hnone
  | loadCount b | loadStatus b | wait b => simp [State.polls, hpc] at hpoll

/-- No clear is pending. -/
theorem Still.clears_eq (h : Still slow gone s) (hp : s.panic = none) (b : k.Index) :
    s.clears b = 0 := by
  by_contra hne
  rcases clears_pos_cases (Nat.pos_of_ne_zero hne) with ⟨todo, hrun⟩ | ⟨c, next, hc, hpc⟩
  · rw [h.run_eq hp] at hrun
    cases hrun
  · exact h.not_isSome (l := .conn c .go) trivial (by simp [step, hp, connRunStep, hc, hpc])

/-- `handleReads` waits for its client, or it has ended. -/
theorem Still.reads_cases (h : Still slow gone s) (hp : s.panic = none) {c : ConnId}
    (hc : c < s.numConns) (hold : (s.conn c).oldBlocks.buf = []) :
    ((s.conn c).reads.Reading ∧ c ∉ gone) ∨ (s.conn c).reads = .done := by
  have hnone : ((s.conn c).reads.Reading → c ∈ gone ∨ (s.conn c).closed = true) →
      (s.conn c).handleReadsStep .eof = none := by
    intro hreading
    have := h (.reads c .eof) hreading
    rw [step_reads hp hc, Option.map_eq_none_iff] at this
    exact this
  cases hreads : (s.conn c).reads with
  | read =>
      refine .inl ⟨.inl rfl, fun hgone => ?_⟩
      have := hnone fun _ => .inl hgone
      simp [Conn.handleReadsStep, hreads] at this
  | value n =>
      refine .inl ⟨.inr ⟨n, rfl⟩, fun hgone => ?_⟩
      have := hnone fun _ => .inl hgone
      simp [Conn.handleReadsStep, hreads] at this
  | post v =>
      -- An empty channel of positive capacity takes the value, if it is open.
      have := hnone (by rw [hreads]; rintro (⟨⟨⟩⟩ | ⟨n, ⟨⟩⟩))
      simp only [Conn.handleReadsStep, hreads] at this
      cases hsend : (s.conn c).oldBlocks.send v with
      | sent q => rw [hsend] at this; cases this
      | full =>
          have hfull := (Chan.send_eq_full hsend).2
          have hpos := k.numBlocks_pos
          rw [hold, List.length_nil] at hfull
          omega
      | panic => rw [hsend] at this; cases this
  | closeOldBlocks =>
      have := hnone (by rw [hreads]; rintro (⟨⟨⟩⟩ | ⟨n, ⟨⟩⟩))
      simp only [Conn.handleReadsStep, hreads] at this
      split at this <;> cases this
  | done => exact .inr rfl

/-- Outside an `unref`, when nothing is due the code offers none of the choices of `conn.run` that
would be. -/
theorem Still.runStep_eq_none (h : Still slow gone s) (hp : s.panic = none) {c : ConnId}
    (hc : c < s.numConns) (ch : ConnChoice) (hdue : Due slow gone s (.conn c ch))
    (hpc : ∀ b next, (s.conn c).pc ≠ .unref b next ∧ (s.conn c).pc ≠ .clear b next) :
    (s.conn c).runStep c ch = none := by
  have hnone := h _ hdue
  rwa [step_conn hp hc hpc, Option.map_eq_none_iff] at hnone

/-- No connection is in its shutdown part. -/
theorem Still.shutdown_eq (h : Still slow gone s) (hr : (system k).Reachable s)
    (hp : s.panic = none) {c : ConnId} (hc : c < s.numConns) :
    (s.conn c).pc.shutdown = false := by
  have hlife := (inv_of_reachable hr).life
  cases hpc : (s.conn c).pc with
  | select | record _ | batch | write _ | returned => rfl
  | unref b next | clear b next =>
      exact (h.not_isSome (l := .conn c .go) trivial (by
        simp [step, hp, connRunStep, hc, hpc])).elim
  | close =>
      have hnone := h.runStep_eq_none hp hc .go trivial (by simp [hpc])
      simp [Conn.runStep, hpc] at hnone
  | sendOld =>
      exact (h.not_isSome (l := .run (.oldConn c)) (by rintro ⟨⟩) (by
        simp [step_run hp, runStep, h.run_eq hp, hc, hpc])).elim
  | drainNew =>
      -- `socket.run` has closed the channel before it went back to its `select`.
      rcases hlife.drainNew_enabled hp hc hpc with hen | ⟨hrun, -⟩
      · exact (h.not_isSome (l := .conn c .go) trivial hen).elim
      · rw [h.run_eq hp] at hrun
        cases hrun
  | drainOld =>
      have hclosed := hungUp_of_reachable hr c (by rw [hpc]; rfl)
      rcases hlife.drainOld_enabled hp hc hpc with hen | hen
      · exact (h.not_isSome (l := .conn c .go) trivial hen).elim
      · exact (h.not_isSome (l := .reads c .error) (fun _ => .inr hclosed) hen).elim
  | sweep i =>
      have hnone := h.runStep_eq_none hp hc .go trivial (by simp [hpc])
      simp only [Conn.runStep, hpc] at hnone
      split at hnone
      · split at hnone <;> cases hnone
      · cases hnone

/-- A connection at its `select` has nothing to receive, and its `handleReads` waits for a client
that is there. -/
theorem Still.select_cases (h : Still slow gone s) (hr : (system k).Reachable s)
    (hp : s.panic = none) {c : ConnId} (hc : c < s.numConns) (hpc : (s.conn c).pc = .select) :
    (s.conn c).newBlocks.buf = [] ∧ (s.conn c).oldBlocks.buf = [] ∧
      (s.conn c).reads.Reading ∧ c ∉ gone := by
  constructor
  · have hnew := h.runStep_eq_none hp hc .newBlock trivial (by simp [hpc])
    simp only [Conn.runStep, hpc] at hnew
    cases hq : (s.conn c).newBlocks.recv with
    | empty => exact (Chan.recv_eq_empty.mp hq).1
    | got b q | closed => rw [hq] at hnew; cases hnew
  · have hret := h.runStep_eq_none hp hc .oldBlock trivial (by simp [hpc])
    simp only [Conn.runStep, hpc] at hret
    cases hq : (s.conn c).oldBlocks.recv with
    | got b q | closed => rw [hq] at hret; cases hret
    | empty =>
        obtain ⟨hbuf, hopen⟩ := Chan.recv_eq_empty.mp hq
        refine ⟨hbuf, ?_⟩
        rcases h.reads_cases hp hc hbuf with hreading | hdone
        · exact hreading
        · rw [((inv_of_reachable hr).life.ok c).done_iff.mp hdone] at hopen
          cases hopen

/-- A connection in its write has a slow client, which is still there. -/
theorem Still.write_cases (h : Still slow gone s) (hr : (system k).Reachable s)
    (hp : s.panic = none) {c : ConnId} (hc : c < s.numConns) {rest : List UInt8}
    (hpc : (s.conn c).pc = .write rest) : c ∈ slow ∧ c ∉ gone := by
  have hlen := List.length_pos_iff.mpr ((writes_of_reachable hr c).write rest hpc)
  constructor
  · by_contra hslow
    have hnone := h.runStep_eq_none hp hc (.wrote rest.length) hslow (by simp [hpc])
    simp [Conn.runStep, hpc, hlen] at hnone
  · intro hgone
    have hnone := h.runStep_eq_none hp hc .writeError hgone (by simp [hpc])
    simp [Conn.runStep, hpc] at hnone

/-- What becomes of a connection when nothing is due. It has returned, and its `handleReads` has
ended. Or both its goroutines wait for a client that is there, with nothing queued for them. Or it
is in the write to a slow client. -/
theorem Still.conn_cases (h : Still slow gone s) (hr : (system k).Reachable s) (hp : s.panic = none)
    {c : ConnId} (hc : c < s.numConns) :
    ((s.conn c).pc = .returned ∧ (s.conn c).reads = .done) ∨
    ((s.conn c).pc = .select ∧ (s.conn c).newBlocks.buf = [] ∧ (s.conn c).oldBlocks.buf = [] ∧
      (s.conn c).reads.Reading ∧ c ∉ gone) ∨
    ∃ rest, (s.conn c).pc = .write rest ∧ c ∈ slow ∧ c ∉ gone := by
  have hshut := h.shutdown_eq hr hp hc
  cases hpc : (s.conn c).pc with
  | returned =>
      have hok := (inv_of_reachable hr).life.ok c
      have hclosed := hok.readsDone (by rw [hpc]; rfl)
      exact .inl ⟨rfl, hok.done_iff.mpr hclosed.1⟩
  | select => exact .inr (.inl ⟨rfl, h.select_cases hr hp hc hpc⟩)
  | write rest => exact .inr (.inr ⟨rest, rfl, h.write_cases hr hp hc hpc⟩)
  | record b | batch =>
      have hnone := h.runStep_eq_none hp hc .go trivial (by simp [hpc])
      simp only [Conn.runStep, hpc] at hnone
      split at hnone <;> cases hnone
  | unref b next | clear b next =>
      exact (h.not_isSome (l := .conn c .go) trivial (by
        simp [step, hp, connRunStep, hc, hpc])).elim
  | close | sendOld | drainNew | drainOld | sweep _ =>
      rw [hpc] at hshut
      cases hshut

/-! ### The way to rest -/

/-- The steps of a socket that is left alone: those that are due, and the looks of
`getNewBlocks`. -/
def Own (slow gone : Set ConnId) (s : State k) (l : Label k) : Prop :=
  NoStaleLoad s l ∧ (Due slow gone s l ∨ l = .getNewBlocks 0)

/-- A step that the daemon takes by itself needs nothing from outside. -/
theorem Own.external_eq {l : Label k} (h : Own slow gone s l) : l.external = false := by
  rcases h.2 with hdue | rfl
  · exact hdue.external_eq
  · rfl

/-- A step that is its own makes the work no more. -/
theorem Own.work_le {l : Label k} {s' : State k} (h : Own slow gone s l)
    (hr : (system k).ReachableBy NoStaleLoad s) (hstep : step s l = some s') :
    (system k).ReachableBy NoStaleLoad s' ∧ s'.panic = none ∧
      s'.work + (!s.polls l).toNat ≤ s.work := by
  have hinv := inv_of_reachable hr.reachable
  refine ⟨.step hr h.1 hstep, ?_, work_step hinv (block_ok_of_guarded hr) hstep h.external_eq⟩
  rw [(hinv.move_of_step hstep h.external_eq).panic_eq]
  exact (step_cases hstep).1

/-- `getNewBlocks` finds its block ready. -/
theorem exists_ref (slow gone : Set ConnId) (hp : s.panic = none)
    (hpoll : s.polls (.getNewBlocks 0) = true) {b : k.Index} (hb : s.watcher.block = b)
    (hr : s.r b = 0) (hstatus : s.blockStatus b ≠ 0) (hclears : s.clears b = 0) :
    ((system k).startAt s).ReachableBy (Own slow gone) { s with watcher := .ref b } := by
  have hstatusStep : (system k).step { s with watcher := .loadStatus b } (.getNewBlocks 0) =
      some { s with watcher := .ref b } := by
    simp [system, step, hp, getNewBlocksStep, hstatus]
  have hcountStep : (system k).step { s with watcher := .loadCount b } (.getNewBlocks 0) =
      some { s with watcher := .loadStatus b } := by
    simp [system, step, hp, getNewBlocksStep, hr]
  have hwaitStep : (system k).step { s with watcher := .wait b } (.getNewBlocks 0) =
      some { s with watcher := .loadCount b } := by
    simp [system, step, hp, getNewBlocksStep]
  have hloadStatus : ((system k).startAt { s with watcher := .loadStatus b }).ReachableBy
      (Own slow gone) { s with watcher := .ref b } :=
    .one (e := .getNewBlocks 0) ⟨hclears, .inr rfl⟩ hstatusStep
  have hloadCount : ((system k).startAt { s with watcher := .loadCount b }).ReachableBy
      (Own slow gone) { s with watcher := .ref b } :=
    System.ReachableBy.trans (.one (e := .getNewBlocks 0) ⟨trivial, .inr rfl⟩ hcountStep)
      hloadStatus
  have hwait : ((system k).startAt { s with watcher := .wait b }).ReachableBy
      (Own slow gone) { s with watcher := .ref b } :=
    System.ReachableBy.trans (.one (e := .getNewBlocks 0) ⟨trivial, .inr rfl⟩ hwaitStep) hloadCount
  cases hpc : s.watcher with
  | loadCount b' =>
      obtain rfl : b' = b := by rw [← hb, hpc]; rfl
      rwa [← hpc] at hloadCount
  | loadStatus b' =>
      obtain rfl : b' = b := by rw [← hb, hpc]; rfl
      rwa [← hpc] at hloadStatus
  | wait b' =>
      obtain rfl : b' = b := by rw [← hb, hpc]; rfl
      rwa [← hpc] at hwait
  | ref b' | send b' => simp [State.polls, hpc] at hpoll

/-- A run of its own keeps the work from growing. -/
theorem work_le_of_run {s' : State k} (hr : (system k).ReachableBy NoStaleLoad s)
    (hp : s.panic = none) (h : ((system k).startAt s).ReachableBy (Own slow gone) s') :
    (system k).ReachableBy NoStaleLoad s' ∧ s'.panic = none ∧ s'.work ≤ s.work := by
  refine System.ReachableBy.invariant (M := (system k).startAt s)
    (P := fun t => (system k).ReachableBy NoStaleLoad t ∧ t.panic = none ∧ t.work ≤ s.work)
    ⟨hr, hp, Nat.le_refl _⟩ ?_ h
  rintro t l t' - ⟨ht, -, hle⟩ hG hstep
  obtain ⟨ht', hp', hwork⟩ := hG.work_le ht hstep
  exact ⟨ht', hp', by omega⟩

/-- By itself the daemon gets to a state of rest, and no goroutine panics on the way. -/
theorem exists_rest (slow gone : Set ConnId) (h : (system k).ReachableBy NoStaleLoad s)
    (hp : s.panic = none) : ∃ s', ((system k).startAt s).ReachableBy (Own slow gone) s' ∧
      ((system k).ReachableBy NoStaleLoad s' ∧ s'.panic = none) ∧ AtRest slow gone s' := by
  refine System.exists_of_measure State.work ?_ ⟨h, hp⟩
  rintro s ⟨h, hp⟩
  by_cases hstill : Still slow gone s
  · by_cases hready : s.r s.watcher.block = 0 ∧ s.blockStatus s.watcher.block ≠ 0
    · -- `getNewBlocks` gets to its `ref`, which is a step less.
      have hinv := inv_of_reachable h.reachable
      have hrun := exists_ref slow gone hp (hstill.polls_eq hp hinv) rfl hready.1 hready.2
        (hstill.clears_eq hp _)
      obtain ⟨h₁, hp₁, hle⟩ := work_le_of_run h hp hrun
      have hdue : Due slow gone { s with watcher := .ref s.watcher.block } (.getNewBlocks 0) :=
        ⟨rfl, rfl⟩
      have hstep : step { s with watcher := .ref s.watcher.block } (.getNewBlocks 0) =
          some { s.addInt32 s.watcher.block 1 with watcher := .send s.watcher.block } := by
        simp [step, hp, getNewBlocksStep, State.addInt32]
      obtain ⟨h₂, hp₂, hlt⟩ := Own.work_le ⟨hdue.noStaleLoad, .inl hdue⟩ h₁ hstep
      rw [hdue.polls_eq] at hlt
      exact .inr ⟨_, .step hrun ⟨hdue.noStaleLoad, .inl hdue⟩ hstep, ⟨h₂, hp₂⟩,
        Nat.lt_of_lt_of_le hlt hle⟩
    · exact .inl ⟨hstill, hready⟩
  · -- A step that is due is a step less.
    obtain ⟨l, hdue, hne⟩ : ∃ l, Due slow gone s l ∧ step s l ≠ none := by
      by_contra hnone
      exact hstill fun l hl => by_contra fun hne => hnone ⟨l, hl, hne⟩
    obtain ⟨s', hstep⟩ := Option.ne_none_iff_exists'.mp hne
    have hown : Own slow gone s l := ⟨hdue.noStaleLoad, .inl hdue⟩
    obtain ⟨h', hp', hlt⟩ := hown.work_le h hstep
    rw [hdue.polls_eq, Bool.not_false, Bool.toNat_true] at hlt
    exact .inr ⟨s', .one hown hstep, ⟨h', hp'⟩, hlt⟩

/-- No goroutine of the socket waits for another one. `getNewBlocks` looks at its block, which is
not ready. `socket.run` is in its `select` with no block queued. Each connection has returned with
both its goroutines, waits for a client that is there, or is in the write to a slow client. -/
structure Idle (slow gone : Set ConnId) (s : State k) : Prop where
  watcher : s.polls (.getNewBlocks 0) = true
  run : s.run = .select
  queue : s.newBlocks.buf = []
  conn : ∀ c, c < s.numConns →
    ((s.conn c).pc = .returned ∧ (s.conn c).reads = .done) ∨
    ((s.conn c).pc = .select ∧ (s.conn c).newBlocks.buf = [] ∧ (s.conn c).oldBlocks.buf = [] ∧
      (s.conn c).reads.Reading ∧ c ∉ gone) ∨
    ∃ rest, (s.conn c).pc = .write rest ∧ c ∈ slow ∧ c ∉ gone

/-- Where nothing is due, nobody waits for another goroutine. -/
theorem Still.idle (h : Still slow gone s) (hr : (system k).Reachable s) (hp : s.panic = none) :
    Idle slow gone s where
  watcher := h.polls_eq hp (inv_of_reachable hr)
  run := h.run_eq hp
  queue := h.newBlocks_eq hp
  conn _ hc := h.conn_cases hr hp hc

/-- Every run without a stale load can be continued to a state of rest, whichever clients are slow
and whichever are gone, by steps of the goroutines alone. There no goroutine waits for another one,
so no combination of slow and gone clients makes a deadlock. -/
theorem comes_to_rest (slow gone : Set ConnId) (h : (system k).ReachableBy NoStaleLoad s)
    (hp : s.panic = none) :
    ∃ s', ((system k).startAt s).ReachableBy (Own slow gone) s' ∧ s'.panic = none ∧
      AtRest slow gone s' ∧ Idle slow gone s' := by
  obtain ⟨s', hrun, ⟨hguard, hp'⟩, hrest⟩ := exists_rest slow gone h hp
  exact ⟨s', hrun, hp', hrest, hrest.still.idle hguard.reachable hp'⟩

/-- Client 0 reads and client 1 does not, and a block is on its way to both. -/
theorem comes_to_rest_slow : ∃ s s' : State ⟨1, by decide⟩,
    (system ⟨1, by decide⟩).execBy NoStaleLoad (State.initial _)
      [.run .newConn, .run .newConn, .fill 0 1, .getNewBlocks 0, .getNewBlocks 0] = some s ∧
    ((system ⟨1, by decide⟩).startAt s).ReachableBy (Own {1} ∅) s' ∧ AtRest {1} ∅ s' ∧
    Idle {1} ∅ s' := by
  obtain ⟨s, hs, hp⟩ : ∃ s : State ⟨1, by decide⟩,
      (system ⟨1, by decide⟩).execBy NoStaleLoad (State.initial _)
        [.run .newConn, .run .newConn, .fill 0 1, .getNewBlocks 0, .getNewBlocks 0] = some s ∧
      s.panic = none := ⟨_, rfl, rfl⟩
  obtain ⟨s', hrun, -, hrest⟩ := comes_to_rest {1} ∅ (System.ReachableBy.init.exec _ hs) hp
  exact ⟨s, s', hs, hrun, hrest⟩

/-! ### What has been delivered at rest -/

/-- The kernel fills the blocks of the ring one after the other. -/
def FillsInOrder (s : State k) : Label k → Prop
  | .fill b _ => b.val = (fills s.log).length % k.numBlocks
  | _ => True

/-- A step of a run without a stale load in which the kernel keeps its order. -/
def Orderly (s : State k) (l : Label k) : Prop := NoStaleLoad s l ∧ FillsInOrder s l

/-- Only a fill has to be looked at. -/
instance (s : State k) (l : Label k) : Decidable (FillsInOrder s l) :=
  l.casesOn (motive := fun l => Decidable (FillsInOrder s l))
    (fun b _ => Nat.decEq b.val ((fills s.log).length % k.numBlocks)) (fun _ => .isTrue trivial)
    (fun _ => .isTrue trivial) (fun _ _ => .isTrue trivial) fun _ _ => .isTrue trivial

/-- Both conditions are decided. -/
instance (s : State k) (l : Label k) : Decidable (Orderly s l) :=
  inferInstanceAs (Decidable (_ ∧ _))

/-- In an orderly run the fills go round the ring. -/
theorem fills_rotate (h : (system k).ReachableBy Orderly s) :
    Rotates k.numBlocks ((fills s.log).map Fin.val) := by
  refine System.ReachableBy.invariant
    (P := fun s => Rotates k.numBlocks ((fills s.log).map Fin.val)) (rotates_nil _) ?_ h
  intro s l s' hr hs hG hstep
  change step s l = some s' at hstep
  have hinv := inv_of_reachable hr.reachable
  by_cases hl : ∃ b v, l = .fill b v
  · obtain ⟨b, v, rfl⟩ := hl
    rcases hinv.step_cases hstep with hm | ⟨errno, -, hlabel, -⟩
    · cases hm with
      | fill _ _ =>
          rw [fills_append, List.map_append]
          refine rotates_append_singleton hs ?_
          rw [List.length_map]
          exact hG.2
    · cases hlabel
  · rwa [hinv.fills_eq hstep fun b v hbv => hl ⟨b, v, hbv⟩]

/-- The fills and the dispatches of one block in its rounds. -/
theorem count_rounds (b : k.Index) (log : List (Event k)) :
    (fills log).count b = (rounds b log).count 0 ∧
    (dispatches log).count b = (rounds b log).count 1 := by
  induction log with
  | nil => exact ⟨rfl, rfl⟩
  | cons e log ih =>
      cases e with
      | fill b' | dispatch b' =>
          by_cases hb : b' = b <;>
            simpa [fills, dispatches, rounds, List.filterMap_cons, Event.filled, Event.dispatched,
              Event.round, hb] using ih
      | _ => exact ih

/-- A block is a fill ahead exactly while it is undelivered. -/
theorem count_fills (h : (system k).ReachableBy NoStaleLoad s) (b : k.Index) :
    (dispatches s.log).count b ≤ (fills s.log).count b ∧
    ((dispatches s.log).count b < (fills s.log).count b ↔ (s.block b).Undelivered) := by
  have hturn := inTurn_of_guarded h b
  obtain ⟨hfills, hdispatches⟩ := count_rounds b s.log
  obtain ⟨h0, h1⟩ := hturn.rotates.count_two
  rw [hfills, hdispatches, h0, h1, ← hturn.turn]
  omega

/-- There are at most as many marks for a connection as there are fills. -/
theorem length_marks_le (h : (system k).ReachableBy NoStaleLoad s) (c : ConnId) :
    (marks c s.log).length ≤ (fills s.log).length := by
  have hordered := ordered_of_reachable h.reachable
  have hsub : (dispatches s.log).Subperm (fills s.log) :=
    List.subperm_ext_iff.mpr fun b _ => (count_fills h b).1
  calc (marks c s.log).length
      ≤ (takesSince c s.log).length := (marks_le_takesSince h.reachable c).length_le
    _ ≤ (takes s.log).length := (takesSince_suffix c _).length_le
    _ ≤ (dispatches s.log).length := by
        rw [← hordered.queue, List.length_append]
        exact Nat.le_add_right _ _
    _ ≤ (fills s.log).length := hsub.length_le

/-- Two lists of blocks that count through the ring. -/
theorem le_of_rotates {l l' : List k.Index} (hl : Rotates k.numBlocks (l.map Fin.val))
    (hl' : Rotates k.numBlocks (l'.map Fin.val)) (hlen : l.length ≤ l'.length) : l <+: l' := by
  have hle := hl.le_of_length_le hl' (by simpa using hlen)
  rw [List.prefix_iff_eq_take, List.length_map, ← List.map_take] at hle
  rw [List.map_injective_iff.mpr Fin.val_injective hle]
  exact List.take_prefix _ _

/-- In the longer one there is one more of the block that comes next. -/
theorem exists_next {l l' : List k.Index} (hl : Rotates k.numBlocks (l.map Fin.val))
    (hl' : Rotates k.numBlocks (l'.map Fin.val)) (hlt : l.length < l'.length) :
    ∃ b : k.Index, b.val = l.length % k.numBlocks ∧ l.count b < l'.count b := by
  obtain ⟨tail, rfl⟩ := le_of_rotates hl hl' (Nat.le_of_lt hlt)
  cases tail with
  | nil => simp at hlt
  | cons b tail =>
      refine ⟨b, ?_, ?_⟩
      · have := hl' l.length b.val (by simp)
        exact this
      · rw [List.count_append, List.count_cons_self]
        omega

/-- What `getNewBlocks` has passed on is what the kernel filled first. -/
theorem dispatches_le_fills (h : (system k).ReachableBy Orderly s) :
    dispatches s.log <+: fills s.log := by
  have hguard : (system k).ReachableBy NoStaleLoad s := h.mono fun _ _ hG => hG.1
  have hordered := ordered_of_reachable hguard.reachable
  have hlen : (dispatches s.log).length ≤ (fills s.log).length := by
    by_contra hlt
    -- No block is dispatched before it is filled.
    obtain ⟨b, -, hb⟩ := exists_next (fills_rotate h) hordered.rotates (Nat.not_le.mp hlt)
    exact absurd (count_fills hguard b).1 (by omega)
  exact le_of_rotates hordered.rotates (fills_rotate h) hlen

/-- At rest every fill has been dispatched. -/
theorem AtRest.fills_eq (h : AtRest slow gone s) (hr : (system k).ReachableBy Orderly s)
    (hp : s.panic = none) : fills s.log = dispatches s.log := by
  have hguard : (system k).ReachableBy NoStaleLoad s := hr.mono fun _ _ hG => hG.1
  have hordered := ordered_of_reachable hguard.reachable
  have hinv := inv_of_reachable hguard.reachable
  have hle := dispatches_le_fills hr
  rcases Nat.lt_or_eq_of_le hle.length_le with hlt | heq
  · -- The next block has been filled, and `getNewBlocks` waits for it.
    obtain ⟨b, hval, hb⟩ := exists_next hordered.rotates (fills_rotate hr) hlt
    have hwatcher : s.watcher.block = b := Fin.ext (hordered.next.trans hval.symm)
    obtain ⟨hfilled, -, hready⟩ := (count_fills hguard b).2.mp hb
    have hpoll := h.still.polls_eq hp hinv
    refine absurd ?_ h.notReady
    rw [hwatcher]
    refine ⟨hready.resolve_right fun hphase => ?_, by simpa [State.block] using hfilled⟩
    cases hpc : s.watcher with
    | send b' => simp [State.polls, hpc] at hpoll
    | loadStatus b' | ref b' =>
        simp only [State.block, hpc, WatcherPc.phase] at hphase
        split at hphase <;> cases hphase
    | loadCount b' | wait b' => simp [State.block, hpc, WatcherPc.phase] at hphase
  · exact (hle.eq_of_length heq).symm

/-- What the daemon does by itself is orderly: it fills no block. -/
theorem Own.orderly {l : Label k} (h : Own slow gone s l) : Orderly s l := by
  refine ⟨h.1, ?_⟩
  cases l with
  | fill b v => cases h.external_eq
  | _ => trivial

/-- A run of its own makes no connection and no fill. -/
theorem frame_of_run {s' : State k} (hr : (system k).ReachableBy NoStaleLoad s)
    (h : ((system k).startAt s).ReachableBy (Own slow gone) s') :
    s'.numConns = s.numConns ∧ fills s'.log = fills s.log := by
  induction h with
  | init => exact ⟨rfl, rfl⟩
  | @step t t' l hrun hG hstep ih =>
      have ht : (system k).ReachableBy NoStaleLoad t := hr.trans (hrun.mono fun _ _ hG => hG.1)
      have hext := hG.external_eq
      have hinv := inv_of_reachable ht.reachable
      have hm := hinv.move_of_step hstep hext
      refine ⟨(hm.inHand hinv.life hext).1.trans ih.1, (hm.fills_eq ?_).trans ih.2⟩
      rintro b v rfl
      cases hext

/-- A run adds to the log. -/
theorem log_le_of_run {s' : State k} {G : State k → Label k → Prop}
    (hr : (system k).Reachable s) (h : ((system k).startAt s).ReachableBy G s') :
    s.log <+: s'.log := by
  induction h with
  | init => exact List.prefix_rfl
  | @step u u' l hrun _ hstep ih =>
      have hu : (system k).Reachable u := hr.trans hrun.reachable
      refine ih.trans ?_
      rcases (inv_of_reachable hu).step_cases hstep with hm | ⟨errno, -, -, rfl⟩
      · obtain ⟨es, hes⟩ := hm.log_le
        exact ⟨es, hes.symm⟩
      · exact List.prefix_rfl

/-- A connection that waits has marked and sent what `socket.run` has taken since it was
registered. -/
theorem Still.marks_eq (h : Still slow gone s) (hr : (system k).Reachable s) (hp : s.panic = none)
    {c : ConnId} (hc : c < s.numConns) (hpc : (s.conn c).pc = .select)
    (hnew : (s.conn c).newBlocks.buf = []) :
    marks c s.log = takesSince c s.log ∧ written c s.log = encode (marks c s.log) := by
  -- Nothing is in its hands, in its channel or on the way there.
  have hfed := (fed_of_reachable hr).fed c hc (by rw [hpc]; rfl)
  have hsent := ((traced_of_reachable hr).conn c).sent (by rw [hpc]; rfl)
  simp only [Conn.got, hpc, hnew, ConnPc.hand, RunPc.due, h.run_eq hp, RunPc.targets,
    Finset.notMem_empty, if_false, List.append_nil] at hfed
  refine ⟨hfed, ?_⟩
  simpa only [Conn.unsent, hpc, List.append_nil] using hsent

/-- When every client has hung up, the socket at rest holds nothing: no connection is left, every
count is zero and every block belongs to the kernel. The kernel has filled the ring in order, and no
load was stale. -/
theorem rest_releases (h : (system k).ReachableBy Orderly s) (hp : s.panic = none)
    (hrest : AtRest slow gone s) (hgone : ∀ c, c < s.numConns → c ∈ gone) :
    s.currentConns = ∅ ∧ (∀ c, c < s.numConns → (s.conn c).pc = .returned) ∧
    ∀ b, s.r b = 0 ∧ s.blockStatus b = 0 := by
  have hguard : (system k).ReachableBy NoStaleLoad s := h.mono fun _ _ hG => hG.1
  have hinv := inv_of_reachable hguard.reachable
  have hreturned : ∀ c, c < s.numConns → (s.conn c).pc = .returned := by
    intro c hc
    rcases hrest.still.conn_cases hguard.reachable hp hc with
      ⟨hpc, -⟩ | ⟨-, -, -, -, hnot⟩ | ⟨-, -, -, hnot⟩
    · exact hpc
    · exact absurd (hgone c hc) hnot
    · exact absurd (hgone c hc) hnot
  have hrun := hrest.still.run_eq hp
  refine ⟨Finset.eq_empty_of_forall_notMem fun c hcur => ?_, hreturned, fun b => ?_⟩
  · have hc := ((hinv.life.current_iff c).mp hcur).1
    rcases hinv.life.returned_gone (hreturned c hc) with hnot | hdelete
    · exact hnot hcur
    · rw [hrun] at hdelete
      cases hdelete
  · have hconn : s.connTotal b = 0 := Finset.sum_eq_zero fun c hc =>
      (hinv.life.ok c).holds_returned (hreturned c (Finset.mem_range.mp hc)) b
    have hwatcher : s.watcher.holds b = 0 := by
      have hpoll := hrest.still.polls_eq hp hinv
      cases hpc : s.watcher with
      | send b' => simp [State.polls, hpc] at hpoll
      | _ => rfl
    have hr : s.r b = 0 := by
      rw [hinv.counted b, hconn, hwatcher, hrest.still.newBlocks_eq hp, hrun]
      rfl
    refine ⟨hr, ?_⟩
    -- A filled block that nobody holds would have a fill that was not dispatched.
    by_contra hstatus
    have hcount := (count_fills hguard b).2.mpr
      ⟨by simpa [State.block] using hstatus, hrest.still.clears_eq hp b, .inl hr⟩
    rw [hrest.fills_eq h hp] at hcount
    exact Nat.lt_irrefl _ hcount

/-- A client hangs up while it has the only block. -/
theorem rest_releases_hangup : ∃ s s' : State ⟨1, by decide⟩,
    (system ⟨1, by decide⟩).execBy Orderly (State.initial _) (.run .newConn :: deliverRun 0 0) =
      some s ∧
    (s.conn 0).outstanding 0 = true ∧ s.blockStatus 0 = 1 ∧
    ((system ⟨1, by decide⟩).startAt s).ReachableBy (Own ∅ Set.univ) s' ∧
    (s'.conn 0).pc = .returned ∧ s'.r 0 = 0 ∧ s'.blockStatus 0 = 0 := by
  obtain ⟨s, hs, hp, hnum, hout, hstatus⟩ : ∃ s : State ⟨1, by decide⟩,
      (system ⟨1, by decide⟩).execBy Orderly (State.initial _) (.run .newConn :: deliverRun 0 0) =
        some s ∧
      s.panic = none ∧ s.numConns = 1 ∧ (s.conn 0).outstanding 0 = true ∧ s.blockStatus 0 = 1 :=
    ⟨_, rfl, rfl, rfl, rfl, rfl⟩
  have hstart : (system ⟨1, by decide⟩).ReachableBy Orderly s := System.ReachableBy.init.exec _ hs
  have hguard : (system ⟨1, by decide⟩).ReachableBy NoStaleLoad s := hstart.mono fun _ _ hG => hG.1
  obtain ⟨s', hrun, ⟨-, hp'⟩, hrest⟩ := exists_rest ∅ Set.univ hguard hp
  obtain ⟨-, hreturned, hblocks⟩ :=
    rest_releases (hstart.trans (hrun.mono fun _ _ hG => hG.orderly)) hp' hrest
      fun c _ => Set.mem_univ c
  have hnum' := (frame_of_run hguard hrun).1
  exact ⟨s, s', hs, hout, hstatus, hrun, hreturned 0 (by omega), hblocks 0⟩

end Testimony.Daemon
