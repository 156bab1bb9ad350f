import Testimony.Proofs.Daemon.Trace

/-!
# `Testimony.Proofs.Daemon.Returns`: returns on their way through a connection

A block index the client sent back is in the hands of `handleReads` or in `c.oldBlocks` until
`conn.run` looks at it. `Conn.returning` counts these, and `Handles` says what a step of the
daemon can do to them, to `outstanding` and to the marks of a connection
(`handles_of_step`): it marks a block, it accepts a return, or it leaves `outstanding` alone and
adds no return.
-/

set_option autoImplicit false

namespace Testimony.Daemon

open Lib

variable {k : Conf}

/-- The returns of block `i` that `conn.run` has not looked at. -/
def Conn.returning (cn : Conn k) (i : Nat) : Nat :=
  (if cn.reads = .post (i + 1) then 1 else 0) + cn.oldBlocks.buf.count (i + 1)

/-- One if block `i` is outstanding. -/
def Conn.owed (cn : Conn k) (i : Nat) : Nat :=
  if h : i < k.numBlocks then (cn.outstanding ⟨i, h⟩).toNat else 0

/-- A block is outstanding at most once. -/
theorem Conn.owed_le_one (cn : Conn k) (i : Nat) : cn.owed i ≤ 1 := by
  unfold Conn.owed
  split
  · exact Bool.toNat_le _
  · exact Nat.zero_le _

/-- For a block of the ring, it is owed if it is outstanding. -/
theorem Conn.owed_val (cn : Conn k) (b : k.Index) : cn.owed b = (cn.outstanding b).toNat := by
  rw [Conn.owed, dif_pos b.isLt]

/-- What is owed depends on the array `outstanding` only. -/
theorem Conn.owed_congr {cn cn' : Conn k} (h : cn'.outstanding = cn.outstanding) (i : Nat) :
    cn'.owed i = cn.owed i := by
  unfold Conn.owed
  rw [h]

/-- A change at one block changes nothing for the others. -/
theorem Conn.owed_update_of_ne {cn cn' : Conn k} {b : k.Index} {x : Bool}
    (h : cn'.outstanding = Function.update cn.outstanding b x) {i : Nat} (hi : i ≠ b.val) :
    cn'.owed i = cn.owed i := by
  unfold Conn.owed
  split
  · rename_i hlt
    rw [h, Function.update_of_ne]
    exact fun heq => hi (congrArg Fin.val heq)
  · rfl

/-- What a step does to the returns, to `outstanding` and to the marks of connection `c`. -/
inductive Handles (c : ConnId) (cn cn' : Conn k) (log log' : List (Event k)) : Prop
  | keep (hout : cn'.outstanding = cn.outstanding) (hret : ∀ i, cn'.returning i ≤ cn.returning i)
      (hmarks : marks c log' = marks c log)
  | mark (b : k.Index) (hb : cn.outstanding b = false)
      (hout : cn'.outstanding = Function.update cn.outstanding b true)
      (hret : ∀ i, cn'.returning i = cn.returning i)
      (hmarks : marks c log' = marks c log ++ [b])
  | accept (b : k.Index) (hout : cn'.outstanding = Function.update cn.outstanding b false)
      (hret : ∀ i, cn.returning i = cn'.returning i + if i = b.val then 1 else 0)
      (hmarks : marks c log' = marks c log)

/-- Nothing the connection cares about has changed. -/
theorem Handles.refl {c : ConnId} {cn cn' : Conn k} {log log' : List (Event k)}
    (hout : cn'.outstanding = cn.outstanding) (hreads : cn'.reads = cn.reads)
    (hold : cn'.oldBlocks = cn.oldBlocks) (hmarks : marks c log' = marks c log) :
    Handles c cn cn' log log' :=
  .keep hout (fun i => by simp [Conn.returning, hreads, hold]) hmarks

/-- A value that left `oldBlocks` is one return less. -/
theorem returning_recv {cn : Conn k} {v : Nat} {q : Chan Nat k.numBlocks}
    (hq : cn.oldBlocks.recv = .got v q) (cn' : Conn k) (hreads : cn'.reads = cn.reads)
    (hold : cn'.oldBlocks = q) (i : Nat) :
    cn.returning i = cn'.returning i + if v = i + 1 then 1 else 0 := by
  obtain ⟨hbuf, -⟩ := Chan.recv_eq_got hq
  simp only [Conn.returning, hreads, hold, hbuf, List.count_cons, beq_iff_eq]
  omega

/-- The steps of `conn.run` inside its connection. -/
theorem Conn.RunMove.handles {c : ConnId} {cn cn' : Conn k} {ch : ConnChoice}
    {es log : List (Event k)}
    (hm : cn.RunMove c ch cn' es) : Handles c cn cn' log (log ++ es) := by
  have hsame : marks c (log ++ []) = marks c log := by rw [List.append_nil]
  cases hm with
  | @accept b q hpc hq hb =>
      refine .accept b rfl (fun i => ?_) (by rw [marks_append]; simp [marks, Event.marked])
      rw [returning_recv hq { cn with
        oldBlocks := q
        outstanding := Function.update cn.outstanding b false
        pc := .unref b .select } rfl rfl i]
      simp only [Nat.add_right_cancel_iff, eq_comm]
  | @mark b hpc hb =>
      refine .mark b hb rfl (fun _ => rfl) ?_
      rw [marks_append]
      simp [marks, Event.marked]
  -- A return that is turned down, or drained, is forgotten.
  | @reject v q hpc hq hv =>
      refine .keep rfl (fun i => ?_) hsame
      rw [returning_recv hq { cn with oldBlocks := q, pc := .close } rfl rfl i]
      exact Nat.le_add_right _ _
  | @drainOld v q hpc hq =>
      refine .keep rfl (fun i => ?_) hsame
      rw [returning_recv hq { cn with oldBlocks := q } rfl rfl i]
      exact Nat.le_add_right _ _
  | wrote hpc hn hle =>
      exact .refl rfl rfl rfl (by rw [marks_append]; simp [marks, Event.marked])
  | _ => exact .refl rfl rfl rfl hsame

/-- The steps of `handleReads` that read no new index. -/
theorem Conn.ReadsMove.handles {c : ConnId} {cn cn' : Conn k} {inp : ReadInput}
    {log : List (Event k)} (hm : cn.ReadsMove inp cn') (hinp : ∀ bytes, inp ≠ .data bytes) :
    Handles c cn cn' log log := by
  refine .keep hm.frame.2.2.1 (fun i => ?_) rfl
  cases hm with
  | word _ _ _ | short _ _ _ _ | value _ _ _ _ => exact absurd rfl (hinp _)
  | stop hpc _ => simp [Conn.returning]
  -- From the hands of `handleReads` into `oldBlocks`.
  | post hpc hq =>
      obtain ⟨-, -, hbuf⟩ := Chan.send_eq_sent hq
      simp only [Conn.returning, hpc, hbuf, List.count_append, List.count_singleton, beq_iff_eq,
        ReadsPc.post.injEq, reduceCtorEq, if_false]
      omega
  | closeOldBlocks hpc hq =>
      obtain ⟨-, -, hbuf⟩ := Chan.close_eq_some hq
      simp [Conn.returning, hbuf]

/-! ### The socket -/

/-- A step that changes connection `d`. -/
theorem Handles.update {conn : ConnId → Conn k} {c d : ConnId} {cn : Conn k}
    {log log' : List (Event k)} (hcn : c = d → Handles c (conn c) cn log log')
    (hlog : c ≠ d → marks c log' = marks c log) :
    Handles c (conn c) (Function.update conn d cn c) log log' := by
  by_cases hd : c = d
  · subst hd
    rw [Function.update_self]
    exact hcn rfl
  · rw [Function.update_of_ne hd]
    exact .refl rfl rfl rfl (hlog hd)

/-- The connection before and after a move of the socket. -/
theorem Move.handles {s s' : State k} {l : Label k} (hm : Move s l s') (ht : Traced s) (c : ConnId)
    (hl : ∀ bytes, l ≠ .reads c (.data bytes)) :
    Handles c (s.conn c) (s'.conn c) s.log s'.log := by
  have hnone : ∀ e : Event k, e.marked c = none → marks c (s.log ++ [e]) = marks c s.log := by
    intro e he
    rw [marks_append]
    simp [marks, he]
  cases hm with
  | fill _ _ | dispatch _ _ | take _ _ | runClear _ => exact .refl rfl rfl rfl (hnone _ rfl)
  | countZero _ _ | statusSet _ _ | notReady _ | waited _ | ref _ | delete _ | visit _ _
  | endRange _ | skipped _ _ | runUnref _ _ | runUnrefZero _ _ => exact .refl rfl rfl rfl rfl
  | register hpc =>
      refine .update (fun hc => ?_) (fun _ => hnone _ rfl)
      -- The connection did not exist, so nothing was outstanding.
      subst hc
      obtain ⟨-, -, htrips⟩ := trace_nil (ht.unborn s.numConns (Nat.le_refl _))
      refine .keep ?_ (fun i => Nat.zero_le _) (hnone _ rfl)
      funext b
      have hphase := (ht.conn s.numConns).phase b
      rw [htrips b] at hphase
      cases hb : (s.conn s.numConns).outstanding b with
      | false => rfl
      | true => rw [hb] at hphase; cases hphase
  | oldConn hpc hc hold | closeNewBlocks hpc hq | sent hpc hq =>
      refine .update (fun hc => ?_) (fun _ => rfl)
      subst hc
      exact .refl rfl rfl rfl rfl
  | connUnref hc hpc hr | connUnrefZero hc hpc hr =>
      refine .update (fun hc => ?_) (fun _ => rfl)
      subst hc
      exact .refl rfl rfl rfl rfl
  | connClear hc hpc =>
      refine .update (fun hc => ?_) (fun _ => hnone _ rfl)
      subst hc
      exact .refl rfl rfl rfl (hnone _ rfl)
  | @connRun d ch cn es hc hmove =>
      refine .update (fun hd => ?_) (fun hd => ?_)
      · subst hd
        exact hmove.handles
      · show marks c (s.log ++ es) = marks c s.log
        have hother : ∀ e ∈ es, e.conn ≠ some c := fun e he heq => hd (hmove.events e he c heq)
        rw [marks_append, (trace_nil hother).1, List.append_nil]
  | connReads hc hmove =>
      refine .update (fun hd => ?_) (fun _ => rfl)
      subst hd
      exact hmove.handles fun bytes hinp => hl bytes (by rw [hinp])

/-- What a step of the daemon does to a connection, if it is not a `Read` of data there. -/
theorem handles_of_step {s s' : State k} {l : Label k} (hr : (system k).Reachable s)
    (h : step s l = some s') (c : ConnId) (hl : ∀ bytes, l ≠ .reads c (.data bytes)) :
    Handles c (s.conn c) (s'.conn c) s.log s'.log ∧ ∃ es, s'.log = s.log ++ es := by
  rcases (inv_of_reachable hr).step_cases h with hm | ⟨errno, -, -, rfl⟩
  · exact ⟨hm.handles (traced_of_reachable hr) c hl, hm.log_le⟩
  · exact ⟨.refl rfl rfl rfl rfl, [], (List.append_nil _).symm⟩

end Testimony.Daemon
