import Testimony.Proofs.Daemon.Exclusive
import Testimony.Proofs.Daemon.Single

/-!
# `Testimony.Proofs.Daemon.Projection`: a connection of the daemon, seen alone

`Daemon.Single` cuts one connection out of its socket and leaves the rest to an arbitrary
environment. `projected_of_run` says that nothing is lost by that: as long as the process lives,
every connection of the socket is in a state which it can reach alone, on the stream that its
`handleReads` has met in the run. It does so without being sent a block again before its `unref`
(`Single.NotTwice`). What holds of a connection in every such environment therefore holds of the
connections of the daemon.

The stream is read off the run. `State.meets` is what a step of a run has of it, the bytes of one
`Read` or the end that it has met, and `met` puts the steps together. What comes behind is left open
in `Projected`, so that the next `Read` can add what it returns.
-/

set_option autoImplicit false

namespace Testimony.Daemon

open Lib

variable {k : Conf} {s s' : State k} {c : ConnId} {seen : List Seg}

/-- Connection `c` of the socket is as in the lone state `t`, before which lies `rest` as long as
it is read. -/
structure Seen (s : State k) (c : ConnId) (rest : List Seg) (t : Single.State k) : Prop where
  cn_eq : t.cn = s.conn c
  alive : t.panic = none
  retired : s.run = .closeNewBlocks c → t.retired = true
  net_eq : (s.conn c).reads ≠ .closeOldBlocks → (s.conn c).reads ≠ .done → t.net = rest

/-- The stream behind an answer of a `Read`: the bytes that have arrived together, or an end. -/
def ReadInput.segs : ReadInput → List Seg
  | .data bytes => Seg.unread bytes []
  | .eof => [.eof]
  | .error => [.error 0]

/-- What `handleReads` of connection `c` meets of its stream in a step: the answer of a `Read`, if
the step is one. A socket that was closed on this side delivers nothing of the stream. -/
def State.meets (s : State k) (c : ConnId) : Label k → List Seg
  | .reads d inp =>
      if d = c ∧ (s.conn c).closed = false then
        match (s.conn c).reads with
        | .read | .value _ => inp.segs
        | _ => []
      else []
  | _ => []

/-- Connection `c` has met `seen` of its stream, and has come alone to where it is in the socket,
whatever the rest of the stream is. -/
def Projected (s : State k) (c : ConnId) (seen : List Seg) : Prop :=
  ∀ rest, ∃ t, (Single.system k (seen ++ rest)).ReachableBy Single.NotTwice t ∧ Seen s c rest t

/-! ### Steps that read nothing -/

/-- A step elsewhere in the socket. -/
theorem Projected.frame (h : Projected s c seen) (hconn : s'.conn c = s.conn c)
    (hrun : s'.run = .closeNewBlocks c → s.run = .closeNewBlocks c) : Projected s' c seen := by
  intro rest
  obtain ⟨t, ht, hcn, halive, hretired, hnet⟩ := h rest
  exact ⟨t, ht, hcn.trans hconn.symm, halive, hretired ∘ hrun, by rw [hconn]; exact hnet⟩

/-- A step of the connection that it can make alone. -/
theorem Projected.step (h : Projected s c seen) (l : Single.Label k)
    (hguard : ∀ t, Single.Inv t → t.cn = s.conn c → Single.NotTwice t l)
    (hstep : ∀ rest t, Seen s c rest t →
      ∃ t', Single.step t l = some t' ∧ Seen s' c rest t') : Projected s' c seen := by
  intro rest
  obtain ⟨t, ht, hview⟩ := h rest
  obtain ⟨t', hl, hview'⟩ := hstep rest t hview
  exact ⟨t', ht.step (hguard t (Single.inv_of_reachable ht.reachable) hview.cn_eq) hl, hview'⟩

/-- A connection that was just registered. -/
theorem Projected.fresh (hconn : s.conn c = .fresh k) (hrun : s.run ≠ .closeNewBlocks c) :
    Projected s c [] :=
  fun _ => ⟨_, System.ReachableBy.init, hconn.symm, rfl, fun h => absurd h hrun, fun _ _ => rfl⟩

/-- Every move of `conn.run` is one it can make in a connection with another number. -/
theorem Conn.RunMove.runStep {cn cn' : Conn k} {ch : ConnChoice} {es : List (Event k)}
    (hm : cn.RunMove c ch cn' es)
    (d : ConnId) : ∃ es', cn.runStep d ch = some (.ok cn' es') := by
  cases hm with
  -- The guards are those of the move. Only the number in the events differs.
  | recvNew hpc hq => exact ⟨[], by simp only [Conn.runStep, hpc, hq]⟩
  | @accept b q hpc hq hb =>
      refine ⟨[.accept d b], ?_⟩
      simp only [Conn.runStep, hpc, hq, Conn.handleReturn, b.isLt, dif_pos, hb, if_true]
  | reject hpc hq hv =>
      refine ⟨[], ?_⟩
      rcases hv with rfl | ⟨b, rfl, hb⟩
      · simp only [Conn.runStep, hpc, hq, Conn.handleReturn]
      · simp only [Conn.runStep, hpc, hq, Conn.handleReturn, b.isLt, dif_pos, hb, if_false,
          Bool.false_eq_true]
  | endOfReads hpc hq =>
      exact ⟨[], by simp only [Conn.runStep, hpc, hq, Conn.handleReturn]⟩
  | @mark b hpc hb =>
      exact ⟨[.mark d b], by simp only [Conn.runStep, hpc, hb, if_false, Bool.false_eq_true]⟩
  | batchMore hpc hq | batchDone hpc hq | drainNew hpc hq | drainNewDone hpc hq
  | drainOld hpc hq | drainOldDone hpc hq =>
      exact ⟨[], by simp only [Conn.runStep, hpc, hq]⟩
  | @wrote rest n hpc hn hle =>
      exact ⟨[.wrote d (rest.take n)], by
        simp only [Conn.runStep, hpc, hn, hle, and_self, if_true]⟩
  | writeError hpc => exact ⟨[], by simp only [Conn.runStep, hpc]⟩
  | close hpc => exact ⟨[], by simp only [Conn.runStep, hpc]⟩
  | @sweepHit b hpc hb =>
      exact ⟨[], by simp only [Conn.runStep, hpc, b.isLt, dif_pos, hb, if_true]⟩
  | @sweepMiss b hpc hb =>
      exact ⟨[], by
        simp only [Conn.runStep, hpc, b.isLt, dif_pos, hb, if_false, Bool.false_eq_true]⟩
  | sweepDone hpc hi =>
      exact ⟨[], by
        simp only [Conn.runStep, hpc, Nat.not_lt.mpr hi, dif_neg, not_false_eq_true]⟩

/-- `conn.run` makes a move inside its connection. -/
theorem Projected.run (h : Projected s c seen) {cn : Conn k} {ch : ConnChoice} {es : List (Event k)}
    (hm : (s.conn c).RunMove c ch cn es) (hreads : cn.reads = (s.conn c).reads)
    (hconn : s'.conn c = cn) (hrun : s'.run = s.run) : Projected s' c seen := by
  obtain ⟨es', hch⟩ := hm.runStep 0
  refine h.step (.run ch) (fun _ _ _ => trivial) fun rest t ht =>
    ⟨t.afterRun (.ok cn es'), ?_, hconn.symm, ht.alive, ?_, ?_⟩
  · simp only [Single.step, ht.alive, Option.isSome_none, ht.cn_eq, hch]
    rfl
  · rw [hrun]
    exact ht.retired
  · rw [hconn, hreads]
    exact ht.net_eq

/-- `socket.run` has changed the place of the connection or its `newBlocks`, or the reference count
was given back: the connection only takes part in it. -/
theorem Projected.env (h : Projected s c seen) (l : Single.Label k)
    (t' : Single.State k → Single.State k)
    (hguard : ∀ t, Single.Inv t → t.cn = s.conn c → Single.NotTwice t l)
    (hstep : ∀ rest t, Seen s c rest t → Single.step t l = some (t' t))
    (hcn : ∀ t, t.cn = s.conn c → (t' t).cn = s'.conn c)
    (hsame : ∀ t, (t' t).panic = t.panic ∧ (t' t).net = t.net)
    (hretired : s'.run = .closeNewBlocks c → ∀ rest t, Seen s c rest t → (t' t).retired = true)
    (hreads : (s'.conn c).reads = (s.conn c).reads) : Projected s' c seen := by
  refine h.step l hguard fun rest t ht => ⟨t' t, hstep rest t ht, hcn t ht.cn_eq, ?_, ?_, ?_⟩
  · rw [(hsame t).1]
    exact ht.alive
  · exact fun hrun => hretired hrun rest t ht
  · rw [hreads, (hsame t).2]
    exact ht.net_eq

/-! ### Steps of `handleReads` -/

/-- Every move of `handleReads` is a step on the answer it carries. -/
theorem Conn.ReadsMove.step_eq {cn cn' : Conn k} {inp : ReadInput} (hm : cn.ReadsMove inp cn') :
    cn.handleReadsStep inp = some (.ok cn' []) := by
  cases hm with
  | word hpc hlen hopen => simp [Conn.handleReadsStep, hpc, hlen, hopen]
  | short hpc hpos hlen hopen =>
      simp [Conn.handleReadsStep, hpc, hpos, Nat.le_of_lt hlen, Nat.ne_of_lt hlen, hopen]
  | stop hpc hinp =>
      rcases hpc with hpc | ⟨n, hpc⟩ <;> rcases hinp with rfl | rfl <;>
        simp only [Conn.handleReadsStep, hpc]
  | value hpc hpos hlen hopen => simp [Conn.handleReadsStep, hpc, hpos, hlen, hopen]
  | post hpc hq | closeOldBlocks hpc hq => simp only [Conn.handleReadsStep, hpc, hq]

/-- The lone `handleReads` makes a step on what its socket answers. -/
theorem Single.readsStep_of_input {t : Single.State k} {inp : ReadInput} {net : List Seg}
    {o : Outcome k} (hreading : t.cn.reads.Reading) (hin : t.input = some (inp, net))
    (h : t.cn.handleReadsStep inp = some o) :
    Single.readsStep t = some (t.afterReads net o) := by
  rcases hreading with hpc | ⟨n, hpc⟩ <;>
    simp only [Single.readsStep, hpc, hin, Option.bind_some, h, Option.map_some]

/-- Where it waits for bytes, what lies before the lone connection is what is left of the
stream. -/
theorem Seen.net_of_reading {rest : List Seg} {t : Single.State k} (h : Seen s c rest t)
    (hreading : (s.conn c).reads.Reading) : t.net = rest := by
  refine h.net_eq ?_ ?_ <;> rcases hreading with hpc | ⟨n, hpc⟩ <;> rw [hpc] <;> rintro ⟨⟩

/-- The connection meets a part `xs` of its stream, and `net` is what then lies before it. -/
theorem Projected.read (h : Projected s c seen) (xs : List Seg) {inp : ReadInput} {cn : Conn k}
    (net : List Seg → List Seg) (hreading : (s.conn c).reads.Reading)
    (hm : (s.conn c).ReadsMove inp cn)
    (hin : ∀ rest t, Seen s c (xs ++ rest) t → t.input = some (inp, net rest))
    (hnet : cn.reads ≠ .closeOldBlocks → ∀ rest, net rest = rest) :
    Projected (s.setConn c cn) c (seen ++ xs) := by
  have hconn : (s.setConn c cn).conn c = cn := Function.update_self ..
  intro rest
  obtain ⟨t, ht, hview⟩ := h (xs ++ rest)
  rw [List.append_assoc]
  have hreads := Single.readsStep_of_input (hview.cn_eq ▸ hreading) (hin rest t hview)
    (hview.cn_eq ▸ hm.step_eq)
  refine ⟨t.afterReads (net rest) (.ok cn []), ht.step (e := .reads) trivial ?_, hconn.symm,
    hview.alive, hview.retired, fun hclose _ => hnet (hconn ▸ hclose) rest⟩
  simp only [Single.system, Single.step, hview.alive, Option.isSome_none, hreads]
  rfl

/-- A `Read` returns bytes. They arrive together in the lone connection. -/
theorem Projected.data (h : Projected s c seen) {bytes : List UInt8} {cn : Conn k}
    (hm : (s.conn c).ReadsMove (.data bytes) cn) (hreading : (s.conn c).reads.Reading)
    (hopen : (s.conn c).closed = false) (hpos : 0 < bytes.length)
    (hroom : bytes.length ≤ (s.conn c).reads.room) :
    Projected (s.setConn c cn) c (seen ++ Seg.unread bytes []) := by
  refine h.read (Seg.unread bytes []) id hreading hm (fun rest t ht => ?_) fun _ _ => rfl
  obtain ⟨b, bs, rfl⟩ := List.exists_cons_of_ne_nil (List.ne_nil_of_length_pos hpos)
  simp only [Single.State.input, ht.cn_eq, hopen, ht.net_of_reading hreading, Seg.unread,
    List.singleton_append, Seg.fetch, List.take_of_length_le hroom,
    List.drop_eq_nil_of_le hroom, id]
  rfl

/-- A `Read` returns no bytes. On a socket that was closed here it is an error whatever the client
has sent. Otherwise the stream has come to an end. -/
theorem Projected.stop (h : Projected s c seen) {inp : ReadInput}
    (hreading : (s.conn c).reads.Reading) (hinp : inp = .eof ∨ inp = .error) :
    Projected (s.setConn c { s.conn c with reads := .closeOldBlocks }) c
      (seen ++ if (s.conn c).closed = false then inp.segs else []) := by
  cases hclosed : (s.conn c).closed with
  | true =>
      refine h.read [] id hreading (.stop hreading (.inr rfl)) (fun rest t ht => ?_) fun _ _ => rfl
      simp only [Single.State.input, ht.cn_eq, hclosed, if_true, ht.net_of_reading hreading,
        List.nil_append, id]
  | false =>
      refine h.read inp.segs (inp.segs ++ ·) hreading (.stop hreading hinp) (fun rest t ht => ?_)
        fun hclose => absurd rfl hclose
      rcases hinp with rfl | rfl <;>
        simp only [Single.State.input, ht.cn_eq, hclosed, ht.net_of_reading hreading,
          ReadInput.segs, List.singleton_append, Seg.fetch] <;> rfl

/-- `handleReads` posts an index or closes `oldBlocks`, and reads nothing. -/
theorem Projected.pass (h : Projected s c seen) (inp : ReadInput) {cn : Conn k}
    (hm : (s.conn c).ReadsMove inp cn) (hreading : ¬ (s.conn c).reads.Reading)
    (hreads : cn.reads = .read → (s.conn c).reads ≠ .closeOldBlocks)
    (hcn : cn.reads = .read ∨ cn.reads = .done) : Projected (s.setConn c cn) c seen := by
  have hconn : (s.setConn c cn).conn c = cn := Function.update_self ..
  have hnotRead : (s.conn c).reads ≠ .read := fun hpc => hreading (.inl hpc)
  have hnotValue : ∀ n, (s.conn c).reads ≠ .value n := fun n hpc => hreading (.inr ⟨n, hpc⟩)
  have hstep : (s.conn c).handleReadsStep .eof = some (.ok cn []) := by
    rw [← hm.step_eq]
    cases hpc : (s.conn c).reads with
    | read => exact absurd hpc hnotRead
    | value n => exact absurd hpc (hnotValue n)
    | post v | closeOldBlocks | done => simp only [Conn.handleReadsStep, hpc]
  refine h.step .reads (fun _ _ _ => trivial) fun rest t ht =>
    ⟨t.afterReads t.net (.ok cn []), ?_, hconn.symm, ht.alive, ht.retired, fun _ hdone => ?_⟩
  · have hreadsStep : Single.readsStep t = some (t.afterReads t.net (.ok cn [])) := by
      rw [← ht.cn_eq] at hstep hreading
      unfold Single.readsStep
      split
      · exact absurd (.inl ‹_›) hreading
      · exact absurd (.inr ⟨_, ‹_›⟩) hreading
      · rw [hstep]
        rfl
    simp only [Single.step, ht.alive, Option.isSome_none, hreadsStep]
    rfl
  · rw [hconn] at hdone
    have hback := hcn.resolve_right hdone
    refine ht.net_eq (hreads hback) fun hpc => ?_
    simp only [Conn.handleReadsStep, hpc, reduceCtorEq] at hstep

/-- `handleReads` makes a step, and meets what the step has of the stream. -/
theorem Projected.reads (h : Projected s c seen) {inp : ReadInput} {cn : Conn k}
    (hm : (s.conn c).ReadsMove inp cn) :
    Projected (s.setConn c cn) c (seen ++ s.meets c (.reads c inp)) := by
  have hmeets : (s.conn c).reads.Reading → s.meets c (.reads c inp) =
      if (s.conn c).closed = false then inp.segs else [] := by
    rintro (hpc | ⟨n, hpc⟩) <;> simp only [State.meets, hpc, true_and]
  have hnone : ¬ (s.conn c).reads.Reading → s.meets c (.reads c inp) = [] := by
    intro hreading
    simp only [State.meets]
    split
    · split
      · exact absurd (.inl ‹_›) hreading
      · exact absurd (.inr ⟨_, ‹_›⟩) hreading
      · rfl
    · rfl
  cases hm with
  | word hpc hlen hopen =>
      rw [hmeets (.inl hpc), if_pos hopen]
      exact h.data (.word hpc hlen hopen) (.inl hpc) hopen (by omega) (by rw [hpc, hlen]; rfl)
  | short hpc hpos hlen hopen =>
      rw [hmeets (.inl hpc), if_pos hopen]
      refine h.data (.short hpc hpos hlen hopen) (.inl hpc) hopen hpos ?_
      rw [hpc]
      exact Nat.le_of_lt hlen
  | value hpc hpos hlen hopen =>
      rw [hmeets (.inr ⟨_, hpc⟩), if_pos hopen]
      refine h.data (.value hpc hpos hlen hopen) (.inr ⟨_, hpc⟩) hopen hpos ?_
      rw [hpc]
      exact hlen
  | stop hpc hinp =>
      rw [hmeets hpc]
      exact h.stop hpc hinp
  | post hpc hq =>
      have hreading : ¬ (s.conn c).reads.Reading := by
        rintro (h | ⟨n, h⟩) <;> rw [hpc] at h <;> cases h
      rw [hnone hreading, List.append_nil]
      exact h.pass inp (.post hpc hq) hreading (fun _ => by rw [hpc]; nofun) (.inl rfl)
  | closeOldBlocks hpc hq =>
      have hreading : ¬ (s.conn c).reads.Reading := by
        rintro (h | ⟨n, h⟩) <;> rw [hpc] at h <;> cases h
      rw [hnone hreading, List.append_nil]
      exact h.pass inp (.closeOldBlocks hpc hq) hreading nofun (.inr rfl)

/-! ### The whole socket -/

end Testimony.Daemon
