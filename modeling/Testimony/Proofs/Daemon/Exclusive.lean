import Testimony.Proofs.Daemon.Holders

/-!
# `Testimony.Proofs.Daemon.Exclusive`: one trip of a block at a time

`getNewBlocks` only takes a block whose count it has read as zero, and nobody but
`getNewBlocks` references a block that has no holder. So a block that was read as free stays
free until `getNewBlocks` references it, a block on its way to `socket.run` has that one
holder, and the connections a block is being fanned out to do not have it yet. A connection
therefore never holds a block twice, and a channel of `NumBlocks` entries is never full.

`Exclusive` is that invariant, and `Inv` collects it with the life cycle and the count. With
`Inv` no step can kill the process except a failing `WaitForBlocks` (`Inv.not_death`), and
neither kind of block channel is ever full (`Inv.newBlocks_length_lt`,
`Inv.conn_newBlocks_length_lt`).
-/

set_option autoImplicit false

namespace Testimony.Daemon

open Lib

variable {k : Conf}

/-- The block `socket.run` is fanning out. -/
def RunPc.block : RunPc k → Option k.Index
  | .fanout b _ | .trySend b _ _ | .unref b _ | .clear b _ => some b
  | _ => none

/-- `getNewBlocks` has read the count of `b` as zero and not yet referenced it. -/
def State.Watched (s : State k) (b : k.Index) : Prop :=
  s.watcher = .loadStatus b ∨ s.watcher = .ref b

/-- Block `b` is on its way from `getNewBlocks` to `socket.run`. -/
def State.Queued (s : State k) (b : k.Index) : Prop :=
  s.watcher = .send b ∨ b ∈ s.newBlocks.buf

/-- Who can have a block at the same time. One that `getNewBlocks` watches has no holder, one that
is queued for `socket.run` has one, and a connection that is still to be sent the block does not
have it yet. No connection has a block twice. -/
structure Exclusive (s : State k) : Prop where
  watched : ∀ b, s.Watched b → s.r b = 0
  queued : ∀ b, s.Queued b → s.r b = 1
  targets : ∀ b, s.run.block = some b → ∀ c ∈ s.run.targets, (s.conn c).holds b = 0
  distinct : ∀ b c todo, s.run = .trySend b c todo → c ∉ todo
  once : ∀ c b, (s.conn c).holds b ≤ 1

/-- At the start nobody has a block. -/
theorem exclusive_initial (k : Conf) : Exclusive (State.initial k) where
  watched b h := rfl
  queued b h := by simp [State.Queued, State.initial] at h
  targets b h := by cases h
  distinct b c todo h := by cases h
  once c b := by
    show (Conn.fresh k).holds b ≤ 1
    rw [Conn.holds_fresh]
    exact Nat.zero_le 1

/-! ### A block held elsewhere is neither watched nor queued -/

/-- A block that is queued is in the hands of `getNewBlocks` or in `newBlocks`. -/
theorem Queued.one_le {s : State k} {b : k.Index} (h : s.Queued b) :
    1 ≤ s.watcher.holds b + s.newBlocks.buf.count b := by
  rcases h with h | h
  · simp [h, WatcherPc.holds]
  · have := List.count_pos_iff.mpr h
    omega

/-- When `socket.run` or a connection holds `b`, changing the count of `b` is no concern of
the blocks `getNewBlocks` watches and the blocks under way. -/
theorem Exclusive.addInt32 {s : State k} (h : Exclusive s) (hcount : Counted s) {b : k.Index}
    (hheld : 0 < s.run.holds b + s.connTotal b) (d : Int) :
    (∀ b', s.Watched b' → (s.addInt32 b d).r b' = 0) ∧
    (∀ b', s.Queued b' → (s.addInt32 b d).r b' = 1) := by
  have hb := hcount b
  constructor
  · intro b' hw
    have hne : b ≠ b' := by
      rintro rfl
      have := h.watched b hw
      omega
    rw [addInt32_r, if_neg hne, h.watched b' hw, Int.add_zero]
  · intro b' hq
    have hne : b ≠ b' := by
      rintro rfl
      have h1 := h.queued b hq
      have h2 := Queued.one_le hq
      omega
    rw [addInt32_r, if_neg hne, h.queued b' hq, Int.add_zero]

/-- A queued block has no holder among the connections. -/
theorem Exclusive.holds_eq_zero {s : State k} (h : Exclusive s) (hcount : Counted s)
    {b : k.Index} (hq : s.Queued b) {c : ConnId} (hc : c < s.numConns) :
    (s.conn c).holds b = 0 := by
  have h1 := hcount b
  have h2 := h.queued b hq
  have h3 := Queued.one_le hq
  have h4 := holds_le_connTotal hc b
  omega

/-! ### The steps -/

/-- When one connection holds no more than before, none does. -/
theorem holds_update_le {s : State k} {c : ConnId} {cn : Conn k}
    (hle : ∀ b, cn.holds b ≤ (s.conn c).holds b) (d : ConnId) (b : k.Index) :
    (Function.update s.conn c cn d).holds b ≤ (s.conn d).holds b := by
  by_cases hd : d = c
  · subst hd
    rw [Function.update_self]
    exact hle b
  · rw [Function.update_of_ne hd]

/-- A step that keeps the watched and the queued blocks, gives no connection anything and
adds no target keeps the invariant. -/
theorem Exclusive.frame {s s' : State k} (h : Exclusive s)
    (hwatched : ∀ b, s'.Watched b → s'.r b = 0) (hqueued : ∀ b, s'.Queued b → s'.r b = 1)
    (hblock : ∀ b, s'.run.block = some b → ∀ c ∈ s'.run.targets,
      s.run.block = some b ∧ c ∈ s.run.targets)
    (hdistinct : ∀ b c todo, s'.run = .trySend b c todo → c ∉ todo)
    (hholds : ∀ c b, (s'.conn c).holds b ≤ (s.conn c).holds b) : Exclusive s' where
  watched := hwatched
  queued := hqueued
  targets b hb c hc := by
    obtain ⟨hb', hc'⟩ := hblock b hb c hc
    have h0 := h.targets b hb' c hc'
    have h1 := hholds c b
    omega
  distinct := hdistinct
  once c b := Nat.le_trans (hholds c b) (h.once c b)

/-- Behind an `unref` in the loop over the connections, `socket.run` has the block and the targets
that it had before. -/
theorem RunPc.resume_block {b b' : k.Index} {todo : Option (Finset ConnId)} {c : ConnId}
    (hb : (RunPc.resume b' todo).block = some b) (hc : c ∈ (RunPc.resume b' todo).targets) :
    (RunPc.unref b' todo).block = some b ∧ c ∈ (RunPc.unref b' todo).targets := by
  cases todo with
  | none => cases hb
  | some todo => exact ⟨hb, hc⟩

/-- Behind an `unref` `socket.run` is not in the middle of a send. -/
theorem RunPc.resume_ne_trySend {b b' : k.Index} {todo : Option (Finset ConnId)} {c : ConnId}
    {todo' : Finset ConnId} : RunPc.resume b' todo ≠ .trySend b c todo' := by
  cases todo <;> nofun

/-- A watcher that is not sending has nothing queued but what is in the channel. -/
theorem Exclusive.queued_of_watcher {s : State k} (h : Exclusive s) {pc : WatcherPc k}
    (hpc : ∀ b, pc ≠ .send b) (b : k.Index) (hq : State.Queued { s with watcher := pc } b) :
    s.r b = 1 :=
  h.queued b (.inr (hq.resolve_left (hpc b)))

/-- The connection `socket.run` sends to does not have the block yet. -/
theorem Exclusive.target_holds {s : State k} (h : Exclusive s) {b : k.Index} {c : ConnId}
    {todo : Finset ConnId} (hpc : s.run = .trySend b c todo) : (s.conn c).holds b = 0 := by
  refine h.targets b (by rw [hpc]; rfl) c ?_
  rw [hpc]
  exact Finset.mem_insert_self _ _

/-- The atomic add of an `unref` in a connection, whether or not a `clear` follows. -/
theorem Exclusive.connUnref {s : State k} (h : Exclusive s) (hcount : Counted s) {c : ConnId}
    {b : k.Index} {next : Resume} {pc : ConnPc k} (hc : c < s.numConns)
    (hpc : (s.conn c).pc = .unref b next) (hnext : pc = next.pc ∨ pc = .clear b next) :
    Exclusive ((s.addInt32 b (-1)).setPc c pc) := by
  obtain ⟨hw, hq⟩ := h.addInt32 hcount (Nat.add_pos_right _ (connTotal_pos hc hpc)) (-1)
  refine h.frame hw hq (fun b hb c hc => ⟨hb, hc⟩) h.distinct (holds_update_le fun b' => ?_)
  exact Nat.le_of_add_right_le (Nat.le_of_eq (Conn.holds_unref hpc hnext b'))

/-- Every move keeps the invariant. -/
theorem Move.exclusive {s s' : State k} {l : Label k} (hm : Move s l s') (hl : Lifecycle s)
    (hcount : Counted s)
    (h : Exclusive s) : Exclusive s' := by
  cases hm with
  | fill _ _ =>
      exact h.frame h.watched h.queued (fun b hb c hc => ⟨hb, hc⟩) h.distinct
        (fun _ _ => Nat.le_refl _)
  | countZero hpc hr =>
      refine h.frame ?_ (h.queued_of_watcher (by rintro _ ⟨⟩)) (fun b hb c hc => ⟨hb, hc⟩)
        h.distinct (fun _ _ => Nat.le_refl _)
      rintro b (hw | hw) <;> cases hw
      exact hr
  | statusSet hpc hb =>
      -- The count has been zero since it was read.
      refine h.frame ?_ (h.queued_of_watcher (by rintro _ ⟨⟩)) (fun b hb c hc => ⟨hb, hc⟩)
        h.distinct (fun _ _ => Nat.le_refl _)
      rintro b (hw | hw) <;> cases hw
      exact h.watched _ (.inl hpc)
  | notReady _ | waited _ =>
      refine h.frame ?_ (h.queued_of_watcher (by rintro _ ⟨⟩)) (fun b hb c hc => ⟨hb, hc⟩)
        h.distinct (fun _ _ => Nat.le_refl _)
      rintro b (hw | hw) <;> cases hw
  | ref hpc =>
      rename_i b'
      have h0 := h.watched b' (.inr hpc)
      refine h.frame ?_ ?_ (fun b hb c hc => ⟨hb, hc⟩) h.distinct (fun _ _ => Nat.le_refl _)
      · rintro b (hw | hw) <;> cases hw
      · rintro b (hq | hq)
        · cases hq
          show (s.addInt32 b' 1).r b' = 1
          rw [addInt32_r, h0, if_pos rfl]
          rfl
        · -- A block in the channel has the count one, so it is another one.
          have h1 := h.queued b (.inr hq)
          have hne : b' ≠ b := by
            rintro rfl
            omega
          show (s.addInt32 b' 1).r b = 1
          rw [addInt32_r, if_neg hne, h1, Int.add_zero]
  | dispatch hpc hq =>
      rename_i b' q
      refine h.frame ?_ ?_ (fun b hb c hc => ⟨hb, hc⟩) h.distinct (fun _ _ => Nat.le_refl _)
      · rintro b (hw | hw) <;> cases hw
      · rintro b (hw | hw)
        · cases hw
        · change b ∈ q.buf at hw
          rw [(Chan.send_eq_sent hq).2.2, List.mem_append, List.mem_singleton] at hw
          rcases hw with hw | rfl
          · exact h.queued b (.inr hw)
          · exact h.queued b (.inl hpc)
  | register hpc =>
      refine h.frame h.watched h.queued ?_ ?_ ?_
      · intro b hb
        simp [addNewConn, hpc, RunPc.block] at hb
      · intro b c todo hrun
        simp [addNewConn, hpc] at hrun
      · exact holds_update_le fun b => by rw [Conn.holds_fresh]; exact Nat.zero_le _
  | oldConn hpc hc hold =>
      refine h.frame h.watched h.queued (by rintro _ ⟨⟩) (by rintro _ _ _ ⟨⟩)
        (holds_update_le fun b => ?_)
      simp [Conn.holds, Conn.owes, hold, ConnPc.holds, ConnPc.unswept]
  | take hpc hq =>
      rename_i b' q
      have hbuf := (Chan.recv_eq_got hq).1
      have hqueued : s.Queued b' := .inr (by rw [hbuf]; exact List.mem_cons_self)
      refine ⟨h.watched, ?_, ?_, by rintro _ _ _ ⟨⟩, h.once⟩
      · rintro b (hw | hw)
        · exact h.queued b (.inl hw)
        · exact h.queued b (.inr (by rw [hbuf]; exact List.mem_cons_of_mem _ hw))
      · -- The only reference is that of `getNewBlocks`, now with `socket.run`.
        intro b hb c hc
        cases hb
        exact h.holds_eq_zero hcount hqueued ((hl.current_iff c).mp hc).1
  | closeNewBlocks hpc hq =>
      refine h.frame h.watched h.queued (by rintro _ ⟨⟩) (by rintro _ _ _ ⟨⟩)
        (holds_update_le fun b => ?_)
      simp [Conn.holds, Conn.owes, (Chan.close_eq_some hq).2.2]
  | delete hpc =>
      exact h.frame h.watched h.queued (by rintro _ ⟨⟩) (by rintro _ _ _ ⟨⟩)
        (fun _ _ => Nat.le_refl _)
  | visit hpc hc =>
      rename_i b' c todo
      obtain ⟨hw, hq⟩ := h.addInt32 hcount (b := b') (by simp [hpc, RunPc.holds]) 1
      refine h.frame hw hq ?_ ?_ (fun _ _ => Nat.le_refl _)
      · intro b hb d hd
        rw [hpc]
        refine ⟨hb, ?_⟩
        simpa [RunPc.targets, Finset.insert_erase hc] using hd
      · intro b d todo' hrun
        cases hrun
        exact Finset.notMem_erase _ _
  | endRange hpc =>
      refine h.frame h.watched h.queued ?_ (by rintro _ _ _ ⟨⟩) (fun _ _ => Nat.le_refl _)
      intro b _ c hc
      simp [RunPc.targets] at hc
  | sent hpc hq =>
      rename_i b' c todo q
      have hnot := h.distinct b' c todo hpc
      have h0 := h.target_holds hpc
      have hother : ∀ d, d ≠ c → ∀ b, (Function.update s.conn c
          { s.conn c with newBlocks := q } d).holds b = (s.conn d).holds b :=
        fun d hd b => by rw [Function.update_of_ne hd]
      refine ⟨h.watched, h.queued, ?_, by rintro _ _ _ ⟨⟩, ?_⟩
      · intro b hb d hd
        cases hb
        have hd' : d ∈ todo := hd
        have hdc : d ≠ c := fun e => hnot (e ▸ hd')
        refine (hother d hdc _).trans (h.targets b' (by rw [hpc]; rfl) d ?_)
        rw [hpc]
        exact Finset.mem_insert_of_mem hd'
      · intro d b
        by_cases hd : d = c
        · -- It had none of this block, and gets no other one.
          subst hd
          have h1 := h.once d b
          show (Function.update s.conn d _ d).holds b ≤ 1
          rw [Function.update_self]
          simp only [Conn.holds, Conn.owes, count_sent hq b] at h0 h1 ⊢
          split
          · rename_i hbb
            subst hbb
            omega
          · omega
        · exact (hother d hd b).trans_le (h.once d b)
  | skipped hpc hq =>
      refine h.frame h.watched h.queued ?_ (by rintro _ _ _ ⟨⟩) (fun _ _ => Nat.le_refl _)
      intro b hb d hd
      rw [hpc]
      exact ⟨hb, Finset.mem_insert_of_mem hd⟩
  | runUnref hpc hr =>
      rename_i b' todo
      obtain ⟨hw, hq⟩ := h.addInt32 hcount
        (Nat.add_pos_left (hpc ▸ RunPc.unref_holds_pos b' todo) _) (-1)
      refine h.frame hw hq ?_ (fun _ _ _ hrun => absurd hrun RunPc.resume_ne_trySend)
        (fun _ _ => Nat.le_refl _)
      intro b hb d hd
      rw [hpc]
      exact RunPc.resume_block hb hd
  | runUnrefZero hpc hr =>
      rename_i b' todo
      obtain ⟨hw, hq⟩ := h.addInt32 hcount
        (Nat.add_pos_left (hpc ▸ RunPc.unref_holds_pos b' todo) _) (-1)
      refine h.frame hw hq ?_ (by rintro _ _ _ ⟨⟩) (fun _ _ => Nat.le_refl _)
      intro b hb d hd
      rw [hpc]
      exact ⟨hb, by rwa [RunPc.clear_targets] at hd⟩
  | runClear hpc =>
      rename_i b' todo
      refine h.frame h.watched h.queued ?_ (fun _ _ _ hrun => absurd hrun RunPc.resume_ne_trySend)
        (fun _ _ => Nat.le_refl _)
      intro b hb d hd
      obtain ⟨h1, h2⟩ := RunPc.resume_block hb hd
      rw [hpc]
      exact ⟨h1, by rwa [RunPc.clear_targets]⟩
  | connUnref hc hpc hr => exact h.connUnref hcount hc hpc (.inl rfl)
  | connUnrefZero hc hpc hr => exact h.connUnref hcount hc hpc (.inr rfl)
  | connClear hc hpc =>
      exact h.frame h.watched h.queued (fun b hb c hc => ⟨hb, hc⟩) h.distinct
        (holds_update_le fun b => Nat.le_of_eq (Conn.holds_clear hpc b))
  | connRun hc hmove =>
      exact h.frame h.watched h.queued (fun b hb c hc => ⟨hb, hc⟩) h.distinct
        (holds_update_le fun b => Nat.le_of_eq (hmove.holds_eq b))
  | connReads hc hmove =>
      exact h.frame h.watched h.queued (fun b hb c hc => ⟨hb, hc⟩) h.distinct
        (holds_update_le fun b => Nat.le_of_eq (hmove.holds_eq b))

/-! ### All of it together -/

/-- The invariant of every reachable state. -/
structure Inv (s : State k) : Prop where
  life : Lifecycle s
  counted : Counted s
  exclusive : Exclusive s

/-- A connection `socket.run` sends to is attached, so its channel is open. -/
theorem Lifecycle.open_of_trySend {s : State k} (h : Lifecycle s) {b : k.Index} {c : ConnId}
    {todo : Finset ConnId} (hpc : s.run = .trySend b c todo) :
    (s.conn c).newBlocks.closed = false := by
  have hatt := ((h.current_iff c).mp (h.current_of_trySend hpc)).2
  simp only [hpc, RunPc.closing, RunPc.deleting, reduceCtorEq, or_false] at hatt
  exact (h.open_iff c).mpr (.inl hatt)

/-- Nothing in the invariant lets the process die in a move. -/
theorem Inv.not_death {s : State k} (h : Inv s) {p : Panic} : ¬ Death s p := by
  intro hd
  cases hd with
  | sendNewBlocks hq | recvNewBlocks hq =>
      rw [h.life.newBlocks_open] at hq
      cases hq
  | closeNewBlocks hpc hq =>
      have := (h.life.open_iff _).mpr (.inr (by rw [hpc]; rfl))
      rw [hq] at this
      cases this
  | trySend hpc hq =>
      rw [h.life.open_of_trySend hpc] at hq
      cases hq
  -- Whoever gives up a reference has one, so the count was positive.
  | runUnref hpc hr =>
      rename_i b todo refs
      have hb := h.counted b
      have : 0 < s.run.holds b := by rw [hpc]; cases todo <;> simp [RunPc.holds]
      omega
  | connUnref hc hpc hr =>
      rename_i c b next refs
      have hb := h.counted b
      have h1 : 0 < (s.conn c).holds b := by simp [Conn.holds, hpc, ConnPc.holds]
      have h2 := holds_le_connTotal hc b
      omega
  | connRun hc hd =>
      cases hd with
      -- `newBlocks` is not closed under a connection that still receives from it.
      | nilBlock hpc hq =>
          have hclosed := (Chan.recv_eq_closed.mp hq).2
          have hopen := (h.life.open_iff _).mpr
            (.inl (by rcases hpc with hpc | hpc <;> rw [hpc] <;> rfl))
          rw [hclosed] at hopen
          cases hopen
      | alreadyOutstanding hpc hb =>
          rename_i c b
          have h1 := h.exclusive.once c b
          simp [Conn.holds, Conn.owes, hpc, hb, ConnPc.holds, ConnPc.unswept] at h1
      | indexOutOfRange hpc hq hi =>
          have hmem := (Chan.recv_eq_got hq).1
          have := (h.life.ok _).posted _ (by rw [hmem]; exact List.mem_cons_self)
          unfold Posted at this
          omega
  | connReads hc hd =>
      cases hd with
      | sendOnClosed hpc hq | closeOfClosed hpc hq =>
          have := (h.life.ok _).done_iff.mpr hq
          rw [hpc] at this
          cases this

/-- Every move keeps the invariant. -/
theorem Move.inv {s s' : State k} {l : Label k} (hm : Move s l s') (h : Inv s) : Inv s' :=
  ⟨hm.lifecycle h.life, hm.counted h.life h.counted, hm.exclusive h.life h.counted h.exclusive⟩

/-- A panic leaves everything as it is. -/
theorem Inv.fail {s : State k} (h : Inv s) (p : Panic) : Inv (s.fail p) :=
  ⟨⟨h.life.newBlocks_open, h.life.ok, h.life.open_iff, h.life.current_iff, h.life.retiring,
      h.life.targets⟩, h.counted,
    ⟨h.exclusive.watched, h.exclusive.queued, h.exclusive.targets, h.exclusive.distinct,
      h.exclusive.once⟩⟩

/-- With the invariant, a step is a move or a failing `WaitForBlocks`. -/
theorem Inv.step_cases {s s' : State k} {l : Label k} (h : Inv s) (hstep : step s l = some s') :
    Move s l s' ∨ WaitFails s l s' := by
  rcases (Daemon.step_cases hstep).2 with hm | hw | ⟨p, -, hd⟩
  · exact .inl hm
  · exact .inr hw
  · exact absurd hd h.not_death

/-- The invariant holds at the start. -/
theorem Inv.initial (k : Conf) : Inv (State.initial k) :=
  ⟨lifecycle_initial k, counted_initial k, exclusive_initial k⟩

/-- The invariant holds in every reachable state. -/
theorem inv_of_reachable {s : State k} (h : (system k).Reachable s) : Inv s := by
  refine System.Reachable.invariant (Inv.initial k) ?_ h
  intro s l s' _ hs hstep
  rcases hs.step_cases hstep with hm | ⟨errno, -, -, rfl⟩
  · exact hm.inv hs
  · exact hs.fail _

/-- A move leaves the process alive. -/
theorem Move.panic_eq {s s' : State k} {l : Label k} (hm : Move s l s') : s'.panic = s.panic := by
  cases hm <;> rfl

/-- A process that died in a run died in `WaitForBlocks`. -/
theorem panic_of_reachable {s : State k} (h : (system k).Reachable s) :
    s.panic = none ∨ ∃ errno, s.panic = some (.waitForBlocks errno) := by
  refine System.Reachable.invariant (P := fun s => s.panic = none ∨
    ∃ errno, s.panic = some (.waitForBlocks errno)) (.inl rfl) ?_ h
  intro s l s' hr hs hstep
  rcases (inv_of_reachable hr).step_cases hstep with hm | ⟨errno, -, -, rfl⟩
  · rw [hm.panic_eq]
    exact hs
  · exact .inr ⟨errno, rfl⟩

/-- To prove an invariant of the reachable states, look at the moves only. -/
theorem invariant_of_move {P : State k → Prop} (hinit : P (State.initial k))
    (hfail : ∀ s p, P s → P (s.fail p))
    (hmove : ∀ s l s', Inv s → P s → Move s l s' → P s') {s : State k}
    (h : (system k).Reachable s) : P s := by
  refine System.Reachable.invariant hinit ?_ h
  intro s l s' hr hs hstep
  have hinv := inv_of_reachable hr
  rcases hinv.step_cases hstep with hm | ⟨errno, -, -, rfl⟩
  · exact hmove s l s' hinv hs hm
  · exact hfail s _ hs

/-! ### Capacity -/

/-- A list of blocks without repetition that misses one of them is shorter than the ring. -/
theorem length_lt_of_count {l : List k.Index} {b : k.Index} (hl : ∀ b, l.count b ≤ 1)
    (hb : l.count b = 0) : l.length < k.numBlocks := by
  have hnodup : (b :: l).Nodup :=
    List.nodup_cons.mpr ⟨List.count_eq_zero.mp hb, List.nodup_iff_count_le_one.mpr hl⟩
  have hcard := hnodup.length_le_card
  rw [List.length_cons, Fintype.card_fin] at hcard
  exact hcard

/-- `getNewBlocks` finds room in `s.newBlocks`: what is queued there is distinct, and the
block in its hands is not among it. -/
theorem Inv.newBlocks_length_lt {s : State k} (h : Inv s) {b : k.Index}
    (hpc : s.watcher = .send b) : s.newBlocks.buf.length < k.numBlocks := by
  refine length_lt_of_count (b := b) (fun b' => ?_) ?_
  · by_cases hmem : b' ∈ s.newBlocks.buf
    · have h1 := h.counted b'
      have h2 := h.exclusive.queued b' (.inr hmem)
      omega
    · rw [List.count_eq_zero.mpr hmem]
      exact Nat.zero_le 1
  · have h1 := h.counted b
    have h2 := h.exclusive.queued b (.inl hpc)
    have h3 : s.watcher.holds b = 1 := by simp [hpc, WatcherPc.holds]
    omega

/-- `socket.run` finds room in the channel of the connection it visits. -/
theorem Inv.conn_newBlocks_length_lt {s : State k} (h : Inv s) {b : k.Index} {c : ConnId}
    {todo : Finset ConnId} (hpc : s.run = .trySend b c todo) :
    (s.conn c).newBlocks.buf.length < k.numBlocks := by
  refine length_lt_of_count (b := b) (fun b' => ?_) ?_
  · have := h.exclusive.once c b'
    unfold Conn.holds at this
    omega
  · have := h.exclusive.target_holds hpc
    unfold Conn.holds at this
    omega

/-! ### The count -/

/-- The count of a block is the number of its holders. -/
theorem Inv.r_eq_holders {s : State k} (h : Inv s) (b : k.Index) : s.r b = s.holders b := by
  rw [h.counted b, State.holders, h.life.sum_live]

/-- The count never passes the number of live connections by more than two. -/
theorem Inv.r_le_live {s : State k} (h : Inv s) (b : k.Index) : s.r b ≤ s.live.card + 2 := by
  by_cases hq : s.Queued b
  · have := h.exclusive.queued b hq
    omega
  · have hcount : s.newBlocks.buf.count b = 0 := List.count_eq_zero.mpr fun hb => hq (.inr hb)
    have hwatcher : s.watcher.holds b = 0 := by
      unfold WatcherPc.holds
      split
      · rename_i b' hpc
        refine if_neg fun hb => hq (.inl ?_)
        rw [hpc, hb]
      · rfl
    have hrun : s.run.holds b ≤ 2 := by
      unfold RunPc.holds
      split <;> first | omega | (split <;> omega)
    have hconn : ∑ c ∈ s.live, (s.conn c).holds b ≤ s.live.card := by
      have := Finset.sum_le_card_nsmul s.live (fun c => (s.conn c).holds b) 1
        fun c _ => h.exclusive.once c b
      simpa using this
    rw [h.r_eq_holders, State.holders, hcount, hwatcher]
    omega

/-- Below `2 ^ 31 - 2` live connections the source's `int32` holds the count exactly. -/
theorem count_fits_int32 {s : State k} (h : (system k).Reachable s) (b : k.Index)
    (hlive : s.live.card + 2 < 2 ^ 31) : (Int32.ofInt (s.r b)).toInt = s.r b := by
  have hinv := inv_of_reachable h
  have hle := hinv.r_le_live b
  have heq := hinv.r_eq_holders b
  exact Int32.toInt_ofInt_of_le (by omega) (by omega)

/-- One client has joined, and `socket.run` is about to send it block `b`. -/
def visitRun (b : k.Index) : List (Label k) :=
  .run .newConn :: .fill b 1 :: dispatchRun ++ [.run .newBlock, .run (.visit 0)]

/-- `socket.run` holds the only block, once for itself and once for the client. -/
theorem count_fits_int32_two : ∃ s : State ⟨1, by decide⟩,
    (system ⟨1, by decide⟩).exec (State.initial _) (visitRun 0) = some s ∧
    s.r 0 = 2 ∧ (Int32.ofInt (s.r 0)).toInt = 2 := by
  obtain ⟨s, hs, hr, hlive⟩ : ∃ s : State ⟨1, by decide⟩,
      (system ⟨1, by decide⟩).exec (State.initial _) (visitRun 0) = some s ∧ s.r 0 = 2 ∧
      s.live.card = 1 := ⟨_, rfl, rfl, rfl⟩
  have hfits := count_fits_int32 (System.reachable_of_exec hs) 0 (by rw [hlive]; decide)
  exact ⟨s, hs, hr, hfits.trans hr⟩

/-- The count of a block is the number of its holders, so it is never negative, the panic in
`unref` is out of reach, and a block nobody holds has count zero. -/
theorem count_eq_holders {s : State k} (h : (system k).Reachable s) (b : k.Index) :
    s.r b = s.holders b ∧ 0 ≤ s.r b ∧ (∀ i refs, s.panic ≠ some (.invalidUnref i refs)) ∧
      (s.holders b = 0 → s.r b = 0) := by
  have heq := (inv_of_reachable h).r_eq_holders b
  refine ⟨heq, by omega, ?_, by omega⟩
  intro i refs hp
  rcases panic_of_reachable h with hnone | ⟨errno, hwait⟩
  · rw [hnone] at hp
    cases hp
  · rw [hwait] at hp
    cases hp

/-- In the middle of the loop over `currentConns` the block has two holders. -/
theorem count_eq_holders_fanout : ∃ s : State ⟨1, by decide⟩,
    (system ⟨1, by decide⟩).exec (State.initial _) (visitRun 0) = some s ∧
    s.r 0 = 2 ∧ s.holders 0 = 2 := by
  obtain ⟨s, hs, hr⟩ : ∃ s : State ⟨1, by decide⟩,
      (system ⟨1, by decide⟩).exec (State.initial _) (visitRun 0) = some s ∧ s.r 0 = 2 :=
    ⟨_, rfl, rfl⟩
  have hcount := (count_eq_holders (System.reachable_of_exec hs) 0).1
  exact ⟨s, hs, hr, by omega⟩

end Testimony.Daemon
