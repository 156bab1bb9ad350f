import Testimony.Daemon.Single
import Testimony.Proofs.Daemon.Holders

/-!
# `Testimony.Proofs.Daemon.Single`: what a connection does with its blocks

Whatever happens around a connection, a block that was sent to it is in `c.newBlocks`, in the hands
of `conn.run`, or outstanding, until `conn.run` has called `unref` for it (`Inv.counted`). Once
`conn.run` has returned none of these places is left. `unref_exactly_once` is the invariant that the
comment above `conn.run` states.
-/

set_option autoImplicit false

namespace Testimony.Daemon.Single

open Lib

variable {k : Conf}

/-! ### What a step can do -/

/-- The steps that leave the process alive. -/
inductive Move (s : State k) : Label k → State k → Prop
  | send {b : k.Index} {q : Chan k.Index k.numBlocks} (hq : s.cn.newBlocks.send b = .sent q) :
      Move s (.send b) { s with cn := { s.cn with newBlocks := q }, sent := s.sent ++ [b] }
  | oldConn (hpc : s.cn.pc = .sendOld) : Move s .oldConn { s.setPc .drainNew with retired := true }
  | closeNewBlocks {q : Chan k.Index k.numBlocks} (hretired : s.retired = true)
      (hq : s.cn.newBlocks.close = some q) :
      Move s .closeNewBlocks { s with cn := { s.cn with newBlocks := q } }
  | run {ch : ConnChoice} {cn : Conn k} {es : List (Event k)} (hm : s.cn.RunMove 0 ch cn es) :
      Move s (.run ch) (s.afterRun (.ok cn es))
  | unref {zero : Bool} {b : k.Index} {next : Resume} {pc : ConnPc k}
      (hpc : s.cn.pc = .unref b next) (hnext : pc = next.pc ∨ pc = .clear b next) :
      Move s (.unref zero) { s.setPc pc with unrefs := s.unrefs ++ [b] }
  | clear {b : k.Index} {next : Resume} (hpc : s.cn.pc = .clear b next) :
      Move s .clear (s.setPc next.pc)
  | reads {inp : ReadInput} {cn : Conn k} {net : List Seg} (hm : s.cn.ReadsMove inp cn) :
      Move s .reads (s.afterReads net (.ok cn []))

/-- A step of `handleReads` is one of `Daemon.Step`. Where it reads, the input is what the socket
answers, and elsewhere the stream stays as it is. -/
theorem readsStep_eq_some {s s' : State k} (h : readsStep s = some s') :
    ∃ inp net o, s.cn.handleReadsStep inp = some o ∧ s' = s.afterReads net o ∧
      (s.cn.reads.Reading ∧ s.input = some (inp, net) ∨ ¬ s.cn.reads.Reading ∧ net = s.net) := by
  unfold readsStep at h
  split at h
  case h_1 hpc =>
    obtain ⟨⟨inp, net⟩, hinput, h⟩ := Option.bind_eq_some_iff.mp h
    obtain ⟨o, ho, rfl⟩ := Option.map_eq_some_iff.mp h
    exact ⟨inp, net, o, ho, rfl, .inl ⟨.inl hpc, hinput⟩⟩
  case h_2 n hpc =>
    obtain ⟨⟨inp, net⟩, hinput, h⟩ := Option.bind_eq_some_iff.mp h
    obtain ⟨o, ho, rfl⟩ := Option.map_eq_some_iff.mp h
    exact ⟨inp, net, o, ho, rfl, .inl ⟨.inr ⟨n, hpc⟩, hinput⟩⟩
  case h_3 hread hvalue =>
    obtain ⟨o, ho, rfl⟩ := Option.map_eq_some_iff.mp h
    refine ⟨.eof, s.net, o, ho, rfl, .inr ⟨?_, rfl⟩⟩
    rintro (hpc | ⟨n, hpc⟩)
    · exact hread hpc
    · exact hvalue n hpc

/-- A step starts in a living process, and it is a move or kills it. -/
theorem step_cases {s s' : State k} {l : Label k} (h : step s l = some s') :
    s.panic = none ∧ (Move s l s' ∨
      ∃ p, s' = { s with panic := some p } ∧ (s.cn.RunDeath 0 p ∨ s.cn.ReadsDeath p)) := by
  unfold step at h
  split at h
  case isTrue => cases h
  case isFalse hp =>
    refine ⟨by simpa using hp, ?_⟩
    cases l with
    | send b =>
        simp only at h
        split at h <;> cases h
        exact .inl (.send ‹_›)
    | oldConn =>
        simp only at h
        split at h <;> cases h
        exact .inl (.oldConn ‹_›)
    | closeNewBlocks =>
        simp only at h
        split at h
        · obtain ⟨q, hq, rfl⟩ := Option.map_eq_some_iff.mp h
          exact .inl (.closeNewBlocks ‹_› hq)
        · cases h
    -- `conn.run` and `handleReads` move as they do in a socket.
    | run ch =>
        obtain ⟨o, ho, rfl⟩ := Option.map_eq_some_iff.mp h
        rcases Conn.runStep_cases ho with ⟨cn, es, rfl, hm⟩ | ⟨p, rfl, hd⟩
        · exact .inl (.run hm)
        · exact .inr ⟨p, rfl, .inl hd⟩
    | unref zero =>
        simp only at h
        split at h
        · rename_i b next hpc
          cases h
          refine .inl (.unref hpc ?_)
          cases zero
          · exact .inl rfl
          · exact .inr rfl
        · cases h
    | clear =>
        simp only at h
        split at h
        · rename_i b next hpc
          cases h
          exact .inl (.clear hpc)
        · cases h
    | reads =>
        obtain ⟨inp, net, o, ho, rfl, -⟩ := readsStep_eq_some h
        rcases Conn.handleReadsStep_cases ho with ⟨cn, rfl, hm⟩ | ⟨p, rfl, hd⟩
        · exact .inl (.reads hm)
        · exact .inr ⟨p, rfl, .inr hd⟩

/-! ### The channels -/

/-- What has left a channel stood before what is still in it. -/
theorem taken_append {α : Type} {cap : Nat} {ch ch' : Chan α cap} (h : ch'.buf <:+ ch.buf) :
    taken ch ch' ++ ch'.buf = ch.buf := by
  obtain ⟨front, hfront⟩ := h
  rw [taken, ← hfront, List.length_append, Nat.add_sub_cancel, List.take_left]

/-- What is added to a channel is what the new one has more than the old one. -/
theorem append_added {α : Type} {cap : Nat} {ch ch' : Chan α cap} (h : ch.buf <+: ch'.buf) :
    ch.buf ++ added ch ch' = ch'.buf := by
  obtain ⟨back, hback⟩ := h
  rw [added, ← hback, List.drop_left]

/-- A receive takes from the front of the channel. -/
theorem recv_suffix {α : Type} {cap : Nat} {ch ch' : Chan α cap} {x : α}
    (h : ch.recv = .got x ch') : ch'.buf <:+ ch.buf := by
  rw [(Chan.recv_eq_got h).1]
  exact List.suffix_cons x ch'.buf

/-- `conn.run` only receives from its two channels. -/
theorem RunMove.suffixes {c : ConnId} {cn cn' : Conn k} {ch : ConnChoice} {es : List (Event k)}
    (hm : cn.RunMove c ch cn' es) :
    cn'.newBlocks.buf <:+ cn.newBlocks.buf ∧ cn'.oldBlocks.buf <:+ cn.oldBlocks.buf := by
  cases hm with
  | recvNew hpc hq | batchMore hpc hq | drainNew hpc hq =>
      exact ⟨recv_suffix hq, List.suffix_refl _⟩
  | accept hpc hq hb | reject hpc hq hv | drainOld hpc hq =>
      exact ⟨List.suffix_refl _, recv_suffix hq⟩
  | _ => exact ⟨List.suffix_refl _, List.suffix_refl _⟩

/-- `handleReads` only sends on `c.oldBlocks`. -/
theorem ReadsMove.prefixes {cn cn' : Conn k} {inp : ReadInput} (hm : cn.ReadsMove inp cn') :
    cn.oldBlocks.buf <+: cn'.oldBlocks.buf := by
  cases hm with
  | post hpc hq =>
      rw [(Chan.send_eq_sent hq).2.2]
      exact List.prefix_append _ _
  | closeOldBlocks hpc hq => rw [(Chan.close_eq_some hq).2.2]
  | _ => exact List.prefix_refl _

/-! ### The invariant -/

/-- What holds of a connection by itself at any time: its program counters fit together, it is
attached as long as `socket.run` has not received it on `oldConns`, its channel is closed only after
that, and what was sent to it is what it has got and what is in the channel. -/
structure Inv (s : State k) : Prop where
  ok : s.cn.Ok
  attached_iff : s.cn.pc.attached = true ↔ s.retired = false
  closed : s.cn.newBlocks.closed = true → s.retired = true
  sent_eq : s.sent = s.got ++ s.cn.newBlocks.buf
  posted_eq : s.posted = s.received ++ s.cn.oldBlocks.buf
  /-- Every block that was sent has been unref'd or is still held. -/
  counted : ∀ b, s.sent.count b = s.unrefs.count b + s.cn.holds b

/-- A lone connection starts at its `select`, with nothing sent to it. -/
theorem inv_init (k : Conf) (net : List Seg) : Inv (system k net).init where
  ok := Conn.fresh_ok k
  attached_iff := by simp [system, Conn.fresh, ConnPc.attached]
  closed h := by cases h
  sent_eq := rfl
  posted_eq := rfl
  counted b := by simp [system, Conn.holds_fresh]

/-- Every move of a lone connection, or of what stands for the rest of the daemon, keeps the
invariant. -/
theorem Move.inv {s s' : State k} {l : Label k} (hm : Move s l s') (h : Inv s) : Inv s' := by
  cases hm with
  | @send b q hq =>
      obtain ⟨-, hopen, hbuf⟩ := Chan.send_eq_sent hq
      refine ⟨h.ok.sent hq, h.attached_iff, fun hc => ?_, ?_, h.posted_eq, fun b' => ?_⟩
      · rw [show q.closed = false from hopen] at hc
        cases hc
      · show s.sent ++ [b] = s.got ++ q.buf
        rw [hbuf, h.sent_eq, List.append_assoc]
      · have hcount := h.counted b'
        have hadd := count_sent hq b'
        show (s.sent ++ [b]).count b' = s.unrefs.count b' + _
        rw [List.count_append, List.count_singleton, hcount]
        simp only [Conn.holds, Conn.owes, hadd, beq_iff_eq]
        omega
  | oldConn hpc =>
      refine ⟨h.ok.moved rfl rfl (by rintro ⟨⟩) (by rintro ⟨⟩) (by rintro ⟨⟩), ?_, fun _ => rfl,
        h.sent_eq, h.posted_eq, fun b => ?_⟩
      · simp [State.setPc, ConnPc.attached]
      · have hcount := h.counted b
        simp only [Conn.holds, Conn.owes, hpc] at hcount
        exact hcount
  | @closeNewBlocks q hretired hq =>
      obtain ⟨hopen, -, hbuf⟩ := Chan.close_eq_some hq
      -- A drained connection has a closed channel, and this one was open.
      have hnot : s.cn.pc.drained ≠ true := fun hd => by
        have := (h.ok.drained hd).1
        rw [hopen] at this
        cases this
      refine ⟨h.ok.moved rfl rfl (fun hd => absurd hd hnot) h.ok.detached h.ok.readsDone,
        h.attached_iff, fun _ => hretired, ?_, h.posted_eq, fun b => ?_⟩
      · show s.sent = s.got ++ q.buf
        rw [hbuf]
        exact h.sent_eq
      · have hcount := h.counted b
        simp only [Conn.holds, Conn.owes, hbuf]
        exact hcount
  | @run ch cn es hm =>
      obtain ⟨hatt, hclosed⟩ := hm.attached_eq
      obtain ⟨hnew, hold⟩ := RunMove.suffixes hm
      refine ⟨hm.ok h.ok, ?_, ?_, ?_, ?_, fun b => ?_⟩
      · show cn.pc.attached = true ↔ _
        rw [hatt]
        exact h.attached_iff
      · show cn.newBlocks.closed = true → _
        rw [hclosed]
        exact h.closed
      · show s.sent = s.got ++ taken _ _ ++ cn.newBlocks.buf
        rw [List.append_assoc, taken_append hnew]
        exact h.sent_eq
      · show s.posted = s.received ++ taken _ _ ++ cn.oldBlocks.buf
        rw [List.append_assoc, taken_append hold]
        exact h.posted_eq
      · show s.sent.count b = s.unrefs.count b + cn.holds b
        rw [hm.holds_eq b]
        exact h.counted b
  | @unref zero b next pc hpc hnext =>
      have hmarks : pc.attached = s.cn.pc.attached ∧ pc.drained = s.cn.pc.drained ∧
          pc.readsDone = s.cn.pc.readsDone := by
        rw [hpc]
        rcases hnext with rfl | rfl
        · exact Resume.pc_marks b next
        · exact ConnPc.clear_marks b next
      refine ⟨h.ok.setPc hmarks, ?_, h.closed, h.sent_eq, h.posted_eq, fun b' => ?_⟩
      · show pc.attached = true ↔ _
        rw [hmarks.1]
        exact h.attached_iff
      · have hcount := h.counted b'
        have hgive := Conn.holds_unref hpc hnext b'
        show s.sent.count b' = (s.unrefs ++ [b]).count b' + { s.cn with pc := pc }.holds b'
        rw [List.count_append, List.count_singleton, hcount, ← hgive]
        simp only [beq_iff_eq]
        omega
  | @clear b next hpc =>
      have hmarks := Resume.pc_marks b next
      have hclear := ConnPc.clear_marks b next
      rw [← hclear.1, ← hclear.2.1, ← hclear.2.2, ← hpc] at hmarks
      refine ⟨h.ok.setPc hmarks, ?_, h.closed, h.sent_eq, h.posted_eq, fun b' => ?_⟩
      · show (next.pc : ConnPc k).attached = true ↔ _
        rw [hmarks.1]
        exact h.attached_iff
      · show _ = _ + { s.cn with pc := next.pc }.holds b'
        rw [Conn.holds_clear hpc b']
        exact h.counted b'
  | @reads inp cn net hm =>
      obtain ⟨hpc, hnew, -, -⟩ := hm.frame
      refine ⟨hm.ok h.ok, ?_, ?_, ?_, ?_, fun b => ?_⟩
      · show cn.pc.attached = true ↔ _
        rw [hpc]
        exact h.attached_iff
      · show cn.newBlocks.closed = true → _
        rw [hnew]
        exact h.closed
      · show s.sent = s.got ++ cn.newBlocks.buf
        rw [hnew]
        exact h.sent_eq
      · show s.posted ++ added _ _ = s.received ++ cn.oldBlocks.buf
        rw [h.posted_eq, List.append_assoc, append_added (ReadsMove.prefixes hm)]
      · show s.sent.count b = s.unrefs.count b + cn.holds b
        rw [hm.holds_eq b]
        exact h.counted b

/-- The invariant in every state of every run. A step that kills the process changes nothing
else. -/
theorem inv_of_reachable {net : List Seg} {s : State k} (h : (system k net).Reachable s) :
    Inv s := by
  refine h.invariant (inv_init k net) fun s l s' _ hs hstep => ?_
  obtain ⟨-, hm | ⟨p, rfl, -⟩⟩ := step_cases hstep
  · exact hm.inv hs
  · exact ⟨hs.ok, hs.attached_iff, hs.closed, hs.sent_eq, hs.posted_eq, hs.counted⟩

/-- A block that `conn.run` has received is in its hands, is outstanding, or has been unref'd. -/
theorem Inv.got_eq {s : State k} (h : Inv s) (b : k.Index) :
    s.got.count b = s.unrefs.count b + (s.cn.pc.holds b + (s.cn.owes b).toNat) := by
  have hcount := h.counted b
  rw [h.sent_eq, List.count_append, Conn.holds] at hcount
  omega

/-! ### Blocks that are not sent twice -/

/-- A block is only sent when `conn.run` has unref'd it as often as it was sent before. -/
def NotTwice (s : State k) : Label k → Prop
  | .send b => s.sent.count b = s.unrefs.count b
  | _ => True

/-- Only a send has to be looked at. -/
instance (s : State k) (l : Label k) : Decidable (NotTwice s l) := by
  cases l <;> unfold NotTwice <;> infer_instance

/-- A connection that holds no block twice does not kill the process. -/
theorem Inv.alive {s : State k} (h : Inv s) (honce : ∀ b, s.cn.holds b ≤ 1) {p : Panic} :
    ¬ (s.cn.RunDeath 0 p ∨ s.cn.ReadsDeath p) := by
  rintro (hd | hd)
  · cases hd with
    | nilBlock hpc hq =>
        -- `socket.run` closes the channel of a connection that has left its main loop.
        have hretired := h.closed (Chan.recv_eq_closed.mp hq).2
        have hatt : s.cn.pc.attached = true := by rcases hpc with hpc | hpc <;> rw [hpc] <;> rfl
        rw [h.attached_iff, hretired] at hatt
        cases hatt
    | @alreadyOutstanding b hpc hb =>
        -- One reference in the hands of `conn.run`, and one for the outstanding block.
        have hle := honce b
        simp only [Conn.holds, Conn.owes, hpc, hb, ConnPc.holds, ConnPc.unswept, if_true,
          Bool.and_self, Bool.toNat_true] at hle
        omega
    | @indexOutOfRange i q hpc hq hi =>
        have hmem : i + 1 ∈ s.cn.oldBlocks.buf := by
          rw [(Chan.recv_eq_got hq).1]
          exact List.mem_cons_self
        have hle := (h.ok.posted _ hmem).2
        omega
  · have hopen : s.cn.reads ≠ .done → s.cn.oldBlocks.closed ≠ true :=
      fun hne hc => hne (h.ok.done_iff.mpr hc)
    cases hd with
    | sendOnClosed hpc hq => exact hopen (by rw [hpc]; rintro ⟨⟩) hq
    | closeOfClosed hpc hq => exact hopen (by rw [hpc]; rintro ⟨⟩) hq

/-- In such runs the connection holds no block twice, and the process lives. -/
theorem alive_of_notTwice {net : List Seg} {s : State k}
    (h : (system k net).ReachableBy NotTwice s) :
    s.panic = none ∧ ∀ b, s.cn.holds b ≤ 1 := by
  refine h.invariant (P := fun s => s.panic = none ∧ ∀ b, s.cn.holds b ≤ 1) ⟨rfl, fun b => ?_⟩
    fun s l s' hr hs hguard hstep => ?_
  · rw [show (system k net).init.cn = .fresh k from rfl, Conn.holds_fresh]
    exact Nat.zero_le _
  · obtain ⟨-, honce⟩ := hs
    have hinv := inv_of_reachable hr.reachable
    obtain ⟨hp, hm | ⟨p, -, hd⟩⟩ := step_cases hstep
    · -- What is held is what was sent and not unref'd, so only a sending can add to it.
      have hinv' := hm.inv hinv
      cases hm with
      | @send b q hq =>
          refine ⟨hp, fun b' => ?_⟩
          have hfree : s.sent.count b = s.unrefs.count b := hguard
          have hcount := hinv.counted b'
          have hcount' : (s.sent ++ [b]).count b' = s.unrefs.count b' + _ := hinv'.counted b'
          have hle := honce b'
          rw [List.count_append, List.count_singleton] at hcount'
          by_cases hb : b = b'
          · subst hb
            rw [beq_self_eq_true, if_pos rfl] at hcount'
            omega
          · rw [beq_false_of_ne hb, if_neg Bool.false_ne_true] at hcount'
            omega
      | @unref zero b next pc hpc hnext =>
          refine ⟨hp, fun b' => ?_⟩
          have hcount := hinv.counted b'
          have hcount' : s.sent.count b' = (s.unrefs ++ [b]).count b' + _ := hinv'.counted b'
          have hle := honce b'
          rw [List.count_append] at hcount'
          omega
      | _ =>
          refine ⟨hp, fun b => ?_⟩
          have hcount := hinv.counted b
          have hcount' : s.sent.count b = s.unrefs.count b + _ := hinv'.counted b
          have hle := honce b
          omega
    · exact absurd hd (hinv.alive honce)

/-- Every block that `conn.run` receives is unref'd exactly once. If no block is sent to the
connection again before it was unref'd, then at every point of every run `conn.run` has unref'd
each block at most as often as it has received it, and when it returns it has done so equally often
and nothing is left in `c.newBlocks`. -/
theorem unref_exactly_once (k : Conf) (net : List Seg) (s : State k)
    (h : (system k net).ReachableBy NotTwice s) :
    s.panic = none ∧ (∀ b, s.unrefs.count b ≤ s.got.count b) ∧
      (s.cn.pc = .returned → s.got = s.sent ∧ ∀ b, s.unrefs.count b = s.got.count b) := by
  have hinv := inv_of_reachable h.reachable
  refine ⟨(alive_of_notTwice h).1, fun b => ?_, fun hpc => ?_⟩
  · have hgot := hinv.got_eq b
    omega
  · have hbuf := (hinv.ok.drained (by rw [hpc]; rfl)).2
    have hsent : s.got = s.sent := by rw [hinv.sent_eq, hbuf, List.append_nil]
    refine ⟨hsent, fun b => ?_⟩
    have hcount := hinv.counted b
    rw [hinv.ok.holds_returned hpc b] at hcount
    rw [hsent]
    exact hcount.symm

/-- Two blocks go out in one batch, the client gives one of them back and hangs up, and the first
is sent once more while the connection closes. -/
theorem unref_exactly_once_late :
    let k : Conf := ⟨2, by decide⟩
    let net : List Seg := [.data 0 [0, 0, 0], .eof]
    let labels : List (Label k) := [.send 0, .send 1, .run .newBlock, .run .go, .run .go, .run .go,
      .run .go, .run (.wrote 8), .reads, .reads, .run .oldBlock, .unref true, .clear, .reads,
      .reads, .run .oldBlock, .run .go, .send 0, .oldConn, .closeNewBlocks, .run .go, .unref false,
      .run .go, .run .go, .run .go, .run .go, .unref true, .clear, .run .go]
    ∃ s, (system k net).execBy NotTwice (system k net).init labels = some s ∧
      s.cn.pc = .returned ∧ s.got = [0, 1, 0] ∧ s.unrefs = [0, 0, 1] ∧
      ∀ b, s.unrefs.count b = s.got.count b := by
  intro k net labels
  have hrun : ((system k net).execBy NotTwice (system k net).init labels).map
      (fun s => (s.cn.pc, s.got, s.unrefs)) = some (.returned, [0, 1, 0], [0, 0, 1]) := by
    decide +kernel
  obtain ⟨s, hs, hview⟩ := Option.map_eq_some_iff.mp hrun
  obtain ⟨hpc, hgot, hunrefs⟩ : s.cn.pc = .returned ∧ s.got = [0, 1, 0] ∧ s.unrefs = [0, 0, 1] := by
    simpa only [Prod.mk.injEq] using hview
  have hrelease := unref_exactly_once k net s (System.ReachableBy.init.exec _ hs)
  exact ⟨s, hs, hpc, hgot, hunrefs, (hrelease.2.2 hpc).2⟩

end Testimony.Daemon.Single
