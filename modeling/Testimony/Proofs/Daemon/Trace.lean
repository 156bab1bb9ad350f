import Testimony.Daemon.Log
import Testimony.Lib.History
import Testimony.Proofs.Daemon.Exclusive

/-!
# `Testimony.Proofs.Daemon.Trace`: what one connection has done

`Conn.Traced` ties the log of a connection (`marks`, `written`, `trips`) to its state.
`outstanding` tells the phase of each block. In the main loop, what was written together with
what is still to be written is the encoding of everything marked. `conn.run` accepts a return
only in its main `select`, where nothing is left to be written, so the client has the whole
index of a block before its return counts (`trips_alternate`).
-/

set_option autoImplicit false

namespace Testimony.Daemon

open Lib

variable {k : Conf}

/-- Events of other connections leave no trace. -/
theorem trace_nil {c : ConnId} {es : List (Event k)} (h : ∀ e ∈ es, e.conn ≠ some c) :
    marks c es = [] ∧ written c es = [] ∧ ∀ b, trips c b es = [] := by
  have hmarked : ∀ e : Event k, e.conn ≠ some c →
      e.marked c = none ∧ e.bytes c = [] ∧ ∀ b, e.trip c b = none := by
    intro e he
    cases e with
    | fill _ | dispatch _ | take _ | clear _ | register _ => exact ⟨rfl, rfl, fun _ => rfl⟩
    | mark d b =>
        have hd : d ≠ c := fun hdc => he (congrArg some hdc)
        exact ⟨if_neg hd, rfl, fun _ => if_neg fun hx => hd hx.1⟩
    | wrote d bytes =>
        have hd : d ≠ c := fun hdc => he (congrArg some hdc)
        exact ⟨rfl, if_neg hd, fun _ => rfl⟩
    | accept d b =>
        have hd : d ≠ c := fun hdc => he (congrArg some hdc)
        exact ⟨rfl, rfl, fun _ => if_neg fun hx => hd hx.1⟩
  refine ⟨?_, ?_, fun b => ?_⟩
  · exact List.filterMap_eq_nil_iff.mpr fun e he => (hmarked e (h e he)).1
  · exact List.flatMap_eq_nil_iff.mpr fun e he => (hmarked e (h e he)).2.1
  · exact List.filterMap_eq_nil_iff.mpr fun e he => (hmarked e (h e he)).2.2 b

/-! ### One connection -/

/-- `conn.run` is in its main loop. -/
def ConnPc.looping : ConnPc k → Bool
  | .select | .record _ | .batch | .write _ => true
  | .unref _ .select | .clear _ .select => true
  | _ => false

/-- The bytes of the current batch that are still to be written. -/
def Conn.unsent (cn : Conn k) : List UInt8 :=
  match cn.pc with
  | .record _ | .batch => cn.out
  | .write rest => rest
  | _ => []

/-- When a return is accepted the client has been sent every index marked so far, the returned
one among them. -/
def SentBefore (c : ConnId) (before : List (Event k)) (e : Event k) : Prop :=
  ∀ b, e = .accept c b → b ∈ marks c before ∧ written c before = encode (marks c before)

/-- How a connection and the log fit together: what it has written are the indexes that it has
marked, but for what it is writing, its marks and accepted returns of a block alternate, and a block
is outstanding after an odd number of them. -/
structure Conn.Traced (c : ConnId) (cn : Conn k) (log : List (Event k)) : Prop where
  sent : cn.pc.looping = true → written c log ++ cn.unsent = encode (marks c log)
  sent_le : written c log <+: encode (marks c log)
  rotates : ∀ b, Rotates 2 (trips c b log)
  phase : ∀ b, (trips c b log).length % 2 = (cn.outstanding b).toNat
  marked : ∀ b, cn.outstanding b = true → b ∈ marks c log
  accepted : AtEach (SentBefore c) log

/-- A connection that has left no trace. -/
theorem Conn.Traced.fresh {c : ConnId} {log : List (Event k)} (hmarks : marks c log = [])
    (hwritten : written c log = []) (htrips : ∀ b, trips c b log = []) :
    (Conn.fresh k).Traced c log := by
  refine ⟨fun _ => ?_, ?_, fun b => ?_, fun b => ?_, fun b hb => ?_, ?_⟩
  · rw [hmarks, hwritten]
    rfl
  · rw [hwritten]
    exact List.nil_prefix
  · rw [htrips b]
    exact rotates_nil 2
  · rw [htrips b]
    rfl
  · cases hb
  · intro before e after hlog b he
    have hnone := List.filterMap_eq_nil_iff.mp (htrips b) e (by rw [hlog]; simp)
    rw [he] at hnone
    simp [Event.trip] at hnone

/-- Events of others, and changes that concern neither `outstanding` nor the bytes to be
written, are no concern of the trace. -/
theorem Conn.Traced.frame {c : ConnId} {cn cn' : Conn k} {log es : List (Event k)}
    (h : cn.Traced c log) (hes : ∀ e ∈ es, e.conn ≠ some c)
    (hloop : cn'.pc.looping = true → cn.pc.looping = true ∧ cn'.unsent = cn.unsent)
    (hout : cn'.outstanding = cn.outstanding) : cn'.Traced c (log ++ es) := by
  obtain ⟨hmarks, hwritten, htrips⟩ := trace_nil hes
  refine ⟨fun hpc => ?_, ?_, fun b => ?_, fun b => ?_, fun b hb => ?_, ?_⟩
  · obtain ⟨hpc', hunsent⟩ := hloop hpc
    rw [marks_append, written_append, hmarks, hwritten, List.append_nil, List.append_nil,
      hunsent]
    exact h.sent hpc'
  · rw [marks_append, written_append, hmarks, hwritten, List.append_nil, List.append_nil]
    exact h.sent_le
  · rw [trips_append, htrips b, List.append_nil]
    exact h.rotates b
  · rw [trips_append, htrips b, List.append_nil, hout]
    exact h.phase b
  · rw [marks_append, hmarks, List.append_nil]
    exact h.marked b (by rwa [hout] at hb)
  · refine atEach_append_of_forall h.accepted fun e he before b hb => ?_
    subst hb
    exact absurd rfl (hes _ he)

/-- The same without an event. -/
theorem Conn.Traced.moved {c : ConnId} {cn cn' : Conn k} {log : List (Event k)}
    (h : cn.Traced c log)
    (hloop : cn'.pc.looping = true → cn.pc.looping = true ∧ cn'.unsent = cn.unsent)
    (hout : cn'.outstanding = cn.outstanding) : cn'.Traced c log := by
  have hnone : ∀ e ∈ ([] : List (Event k)), e.conn ≠ some c := nofun
  have hframe := h.frame hnone hloop hout
  rwa [List.append_nil] at hframe

/-- Block `b` begins its next phase: it is marked if it was not outstanding, and returned if it
was. -/
theorem Conn.Traced.turn {c : ConnId} {cn : Conn k} {log : List (Event k)} {b : k.Index} {v : Bool}
    (h : cn.Traced c log) (hb : cn.outstanding b = v) {e : Event k}
    (he : ∀ b', trips c b' [e] = if b = b' then [v.toNat] else []) (b' : k.Index) :
    Rotates 2 (trips c b' (log ++ [e])) ∧
    (trips c b' (log ++ [e])).length % 2 = (Function.update cn.outstanding b (!v) b').toNat := by
  rw [trips_append, he b']
  by_cases hbb : b = b'
  · subst hbb
    have hphase := h.phase b
    rw [hb] at hphase
    rw [if_pos rfl, Function.update_self]
    refine ⟨rotates_append_singleton (h.rotates b) hphase.symm, ?_⟩
    rw [List.length_append, List.length_singleton]
    cases v <;> simp only [Bool.toNat_true, Bool.toNat_false, Bool.not_true, Bool.not_false]
      at hphase ⊢ <;> omega
  · rw [if_neg hbb, List.append_nil, Function.update_of_ne (Ne.symm hbb)]
    exact ⟨h.rotates b', h.phase b'⟩

/-- `conn.run` marks the block in its hands and adds its index to the batch. -/
theorem Conn.Traced.mark {c : ConnId} {cn : Conn k} {log : List (Event k)} {b : k.Index}
    (h : cn.Traced c log) (hpc : cn.pc = .record b) (hb : cn.outstanding b = false) :
    { cn with
      outstanding := Function.update cn.outstanding b true
      out := cn.out ++ BigEndian.putUint32 (UInt32.ofNat b)
      pc := .batch : Conn k }.Traced c (log ++ [.mark c b]) := by
  have hsent := h.sent (by rw [hpc]; rfl)
  have hmarks : marks c (log ++ [.mark c b]) = marks c log ++ [b] := by
    rw [marks_append]
    simp [marks, Event.marked]
  have hwritten : written c (log ++ [.mark c b]) = written c log := by
    rw [written_append]
    simp [written, Event.bytes]
  have hturn := h.turn hb (e := .mark c b) fun b' => by
    by_cases hbb : b = b' <;> simp [trips, Event.trip, hbb]
  refine ⟨fun _ => ?_, ?_, fun b' => (hturn b').1, fun b' => (hturn b').2, fun b' hb' => ?_, ?_⟩
  · rw [hmarks, hwritten, encode_append, encode_singleton, ← hsent]
    simp [Conn.unsent, hpc]
  · rw [hmarks, hwritten, encode_append]
    exact h.sent_le.trans (List.prefix_append _ _)
  · rw [hmarks, List.mem_append, List.mem_singleton]
    by_cases hbb : b' = b
    · exact .inr hbb
    · dsimp only at hb'
      rw [Function.update_of_ne hbb] at hb'
      exact .inl (h.marked b' hb')
  · exact atEach_append_singleton h.accepted fun b' he => by cases he

/-- `conn.run` accepts a return. It stands in its `select`, where nothing is unsent. -/
theorem Conn.Traced.accept {c : ConnId} {cn : Conn k} {log : List (Event k)} {b : k.Index}
    {q : Chan Nat k.numBlocks} (h : cn.Traced c log) (hpc : cn.pc = .select)
    (hb : cn.outstanding b = true) :
    { cn with
      oldBlocks := q
      outstanding := Function.update cn.outstanding b false
      pc := .unref b .select : Conn k }.Traced c (log ++ [.accept c b]) := by
  have hsent : written c log = encode (marks c log) := by
    have := h.sent (by rw [hpc]; rfl)
    simpa [Conn.unsent, hpc] using this
  have hmarks : marks c (log ++ [.accept c b]) = marks c log := by
    rw [marks_append]
    simp [marks, Event.marked]
  have hwritten : written c (log ++ [.accept c b]) = written c log := by
    rw [written_append]
    simp [written, Event.bytes]
  have hturn := h.turn hb (e := .accept c b) fun b' => by
    by_cases hbb : b = b' <;> simp [trips, Event.trip, hbb]
  refine ⟨fun _ => ?_, ?_, fun b' => (hturn b').1, fun b' => (hturn b').2, fun b' hb' => ?_, ?_⟩
  · rw [hmarks, hwritten, hsent]
    exact List.append_nil _
  · rw [hmarks, hwritten]
    exact h.sent_le
  · rw [hmarks]
    by_cases hbb : b' = b
    · subst hbb
      dsimp only at hb'
      rw [Function.update_self] at hb'
      cases hb'
    · dsimp only at hb'
      rw [Function.update_of_ne hbb] at hb'
      exact h.marked b' hb'
  · refine atEach_append_singleton h.accepted fun b' he => ?_
    cases he
    exact ⟨h.marked b hb, hsent⟩

/-- The socket takes some of the bytes `conn.run` is writing. -/
theorem Conn.Traced.wrote {c : ConnId} {cn : Conn k} {log : List (Event k)}
    {rest : List UInt8} {n : Nat} (h : cn.Traced c log) (hpc : cn.pc = .write rest) :
    { cn with pc := if rest.drop n = [] then .select else .write (rest.drop n) : Conn k }.Traced
      c (log ++ [.wrote c (rest.take n)]) := by
  have hsent := h.sent (by rw [hpc]; rfl)
  have hrest : cn.unsent = rest.take n ++ rest.drop n := by
    rw [List.take_append_drop]
    simp [Conn.unsent, hpc]
  rw [hrest, ← List.append_assoc] at hsent
  have hmarks : marks c (log ++ [.wrote c (rest.take n)]) = marks c log := by
    rw [marks_append]
    simp [marks, Event.marked]
  have hwritten : written c (log ++ [.wrote c (rest.take n)])
      = written c log ++ rest.take n := by
    rw [written_append]
    simp [written, Event.bytes]
  have htrips : ∀ b, trips c b (log ++ [.wrote c (rest.take n)]) = trips c b log := by
    intro b
    rw [trips_append]
    simp [trips, Event.trip]
  refine ⟨fun _ => ?_, ?_, fun b => ?_, fun b => ?_, fun b hb => ?_, ?_⟩
  · rw [hmarks, hwritten, ← hsent]
    congr 1
    -- After the last byte `conn.run` is back in its `select`, with nothing unsent.
    by_cases hdrop : rest.drop n = [] <;> simp [Conn.unsent, hdrop]
  · rw [hmarks, hwritten, ← hsent]
    exact List.prefix_append _ _
  · rw [htrips b]
    exact h.rotates b
  · rw [htrips b]
    exact h.phase b
  · rw [hmarks]
    exact h.marked b hb
  · exact atEach_append_singleton h.accepted fun b he => by cases he

/-- A step inside a connection keeps its trace. -/
theorem Conn.RunMove.traced {c : ConnId} {cn cn' : Conn k} {ch : ConnChoice}
    {es log : List (Event k)}
    (hm : cn.RunMove c ch cn' es) (h : cn.Traced c log) : cn'.Traced c (log ++ es) := by
  cases hm with
  | mark hpc hb => exact h.mark hpc hb
  | accept hpc hq hb => exact h.accept hpc hb
  | wrote hpc hn hle => exact h.wrote hpc
  | recvNew hpc hq =>
      rw [List.append_nil]
      exact h.moved (fun _ => by simp [hpc, ConnPc.looping, Conn.unsent]) rfl
  | batchMore hpc hq | batchDone hpc hq =>
      rw [List.append_nil]
      exact h.moved (fun _ => by simp [hpc, ConnPc.looping, Conn.unsent]) rfl
  | reject hpc hq hv | endOfReads hpc hq | writeError hpc | close hpc | drainNew hpc hq
  | drainNewDone hpc hq | drainOldDone hpc hq | sweepHit hpc hb | sweepMiss hpc hb
  | sweepDone hpc hi =>
      rw [List.append_nil]
      exact h.moved nofun rfl
  | drainOld hpc hq =>
      rw [List.append_nil]
      exact h.moved (fun hl => ⟨hl, rfl⟩) rfl

/-- An `unref` that ends in the main loop has begun there, and has nothing to send. -/
theorem Conn.looping_resume {cn : Conn k} {b : k.Index} {next : Resume} {pc : ConnPc k}
    (hpc : cn.pc = .unref b next ∨ cn.pc = .clear b next)
    (hpc' : pc = next.pc ∨ pc = .clear b next) (hl : pc.looping = true) :
    cn.pc.looping = true ∧ { cn with pc := pc }.unsent = cn.unsent := by
  cases next with
  | select => rcases hpc with hpc | hpc <;> rcases hpc' with rfl | rfl <;>
      simp [hpc, ConnPc.looping, Conn.unsent, Resume.pc]
  | drainNew => rcases hpc' with rfl | rfl <;> cases hl
  | sweep i => rcases hpc' with rfl | rfl <;> cases hl

/-! ### The socket -/

/-- Every connection is traced, and those to come have left nothing in the log. -/
structure Traced (s : State k) : Prop where
  conn : ∀ c, (s.conn c).Traced c s.log
  unborn : ∀ c, s.numConns ≤ c → ∀ e ∈ s.log, e.conn ≠ some c

/-- At the start there is no connection, and the log is empty. -/
theorem traced_initial (k : Conf) : Traced (State.initial k) where
  conn _ := Conn.Traced.fresh rfl rfl fun _ => rfl
  unborn _ _ := nofun

/-- A step outside the connections, with an event that belongs to none of them. -/
theorem Traced.frame {s s' : State k} {es : List (Event k)} (h : Traced s)
    (hlog : s'.log = s.log ++ es) (hes : ∀ e ∈ es, e.conn = none)
    (hnum : s'.numConns = s.numConns) (hconn : s'.conn = s.conn) : Traced s' where
  conn c := by
    rw [hlog, hconn]
    exact (h.conn c).frame (fun e he => by simp [hes e he]) (fun hl => ⟨hl, rfl⟩) rfl
  unborn c hc e he := by
    rw [hlog, List.mem_append] at he
    rcases he with he | he
    · exact h.unborn c (hnum ▸ hc) e he
    · simp [hes e he]

/-- A step of connection `c`. -/
theorem Traced.frame_conn {s s' : State k} {es : List (Event k)} {c : ConnId} {cn : Conn k}
    (h : Traced s) (hc : c < s.numConns) (hlog : s'.log = s.log ++ es)
    (hes : ∀ e ∈ es, ∀ d, e.conn = some d → d = c) (hnum : s'.numConns = s.numConns)
    (hconn : s'.conn = Function.update s.conn c cn) (hcn : cn.Traced c (s.log ++ es)) :
    Traced s' where
  conn d := by
    rw [hlog, hconn]
    by_cases hd : d = c
    · subst hd
      rwa [Function.update_self]
    · rw [Function.update_of_ne hd]
      exact (h.conn d).frame (fun e he hdc => hd (hes e he d hdc)) (fun hl => ⟨hl, rfl⟩) rfl
  unborn d hd e he := by
    rw [hlog, List.mem_append] at he
    rw [hnum] at hd
    rcases he with he | he
    · exact h.unborn d hd e he
    · intro hdc
      rw [hes e he d hdc] at hd
      exact absurd hc (Nat.not_lt.mpr hd)

/-- The events of a step of `conn.run` are its own. -/
theorem Conn.RunMove.events {c : ConnId} {cn cn' : Conn k} {ch : ConnChoice} {es : List (Event k)}
    (hm : cn.RunMove c ch cn' es) : ∀ e ∈ es, ∀ d, e.conn = some d → d = c := by
  cases hm <;> simp [Event.conn]

/-- Every move keeps the traces. -/
theorem Move.traced {s s' : State k} {l : Label k} (hm : Move s l s') (hl : Lifecycle s)
    (h : Traced s) :
    Traced s' := by
  cases hm with
  -- Events of the socket, or none, are in no trace.
  | fill _ _ | dispatch _ _ | take _ _ | runClear _ =>
      exact h.frame rfl (by simp [Event.conn]) rfl rfl
  | countZero _ _ | statusSet _ _ | notReady _ | waited _ | ref _ | delete _ | visit _ _
  | endRange _ | skipped _ _ | runUnref _ _ | runUnrefZero _ _ =>
      exact h.frame (List.append_nil _).symm nofun rfl rfl
  | register hpc =>
      obtain ⟨hmarks, hwritten, htrips⟩ := trace_nil (h.unborn s.numConns (Nat.le_refl _))
      refine ⟨fun c => ?_, fun c hc e he => ?_⟩
      · show (Function.update s.conn s.numConns (Conn.fresh k) c).Traced c
          (s.log ++ [.register s.numConns])
        by_cases hd : c = s.numConns
        · -- The new connection has no marks and no bytes yet.
          subst hd
          rw [Function.update_self]
          refine Conn.Traced.fresh ?_ ?_ fun b => ?_
          · rw [marks_append, hmarks]
            rfl
          · rw [written_append, hwritten]
            rfl
          · rw [trips_append, htrips b]
            rfl
        · rw [Function.update_of_ne hd]
          refine (h.conn c).frame ?_ (fun hl => ⟨hl, rfl⟩) rfl
          simp [Event.conn, Ne.symm hd]
      · have hc' : s.numConns + 1 ≤ c := hc
        rcases List.mem_append.mp he with he | he
        · exact h.unborn c (by omega) e he
        · rw [List.mem_singleton] at he
          subst he
          intro heq
          cases heq
          exact absurd hc' (Nat.not_succ_le_self _)
  | oldConn hpc hc hold =>
      refine h.frame_conn hc (List.append_nil _).symm nofun rfl rfl ?_
      rw [List.append_nil]
      exact (h.conn _).moved nofun rfl
  | closeNewBlocks hpc hq =>
      obtain ⟨hc, -⟩ := hl.retiring _ (.inl (by rw [hpc]; rfl))
      refine h.frame_conn hc (List.append_nil _).symm nofun rfl rfl ?_
      rw [List.append_nil]
      exact (h.conn _).moved (fun hl => ⟨hl, rfl⟩) rfl
  | sent hpc hq =>
      rename_i b c todo q
      refine h.frame_conn (hl.lt_of_trySend hpc) (List.append_nil _).symm nofun rfl rfl ?_
      rw [List.append_nil]
      exact (h.conn _).moved (fun hl => ⟨hl, rfl⟩) rfl
  | connUnref hc hpc hr | connUnrefZero hc hpc hr =>
      rename_i c b next
      refine h.frame_conn hc (List.append_nil _).symm nofun rfl rfl ?_
      rw [List.append_nil]
      exact (h.conn c).moved (Conn.looping_resume (.inl hpc) (by simp)) rfl
  | connClear hc hpc =>
      rename_i c b next
      have hlog : ((s.clear b).setPc c next.pc).log = s.log ++ [.clear b] := rfl
      refine h.frame_conn hc hlog (by simp [Event.conn]) rfl rfl ?_
      exact (h.conn c).frame (by simp [Event.conn])
        (Conn.looping_resume (.inr hpc) (.inl rfl)) rfl
  | connRun hc hmove =>
      exact h.frame_conn hc rfl hmove.events rfl rfl (hmove.traced (h.conn _))
  | connReads hc hmove =>
      obtain ⟨h1, -, h3, h4⟩ := hmove.frame
      refine h.frame_conn hc (List.append_nil _).symm nofun rfl rfl ?_
      rw [List.append_nil]
      exact (h.conn _).moved (fun hl => ⟨h1 ▸ hl, by simp [Conn.unsent, h1, h4]⟩) h3

/-- In every state of the daemon the log tells the story of each connection. -/
theorem traced_of_reachable {s : State k} (h : (system k).Reachable s) : Traced s :=
  invariant_of_move (P := Traced) (traced_initial k)
    (fun _ _ hs => ⟨hs.conn, hs.unborn⟩) (fun _ _ _ hinv hs hm => hm.traced hinv.life hs) h

/-! ### Alternation -/

/-- A block waiting in `c.newBlocks` is not outstanding at the connection. -/
theorem Inv.not_outstanding {s : State k} (h : Inv s) {c : ConnId} {b : k.Index}
    (hb : b ∈ (s.conn c).newBlocks.buf) : (s.conn c).outstanding b = false := by
  have honce := h.exclusive.once c b
  have hcount := List.count_pos_iff.mpr hb
  -- The last loop runs on an empty channel, so it has not begun.
  have hunswept : (s.conn c).pc.unswept b = true := by
    by_contra hswept
    have hdrained : (s.conn c).pc.drained = true := by
      revert hswept
      cases (s.conn c).pc with
      | unref b' next | clear b' next => cases next <;> simp [ConnPc.unswept, ConnPc.drained]
      | _ => simp [ConnPc.unswept, ConnPc.drained]
    rw [((h.life.ok c).drained hdrained).2] at hb
    cases hb
  cases hout : (s.conn c).outstanding b with
  | false => rfl
  | true =>
      simp only [Conn.holds, Conn.owes, hout, hunswept, Bool.and_self, Bool.toNat_true] at honce
      omega

/-- Marks and accepted returns of a block at a connection alternate, beginning with a mark,
and a return is accepted only when everything marked so far has been written to the client.
So the blocks in `c.newBlocks` are distinct and none of them is outstanding, and the
`log.Fatalf` about an already outstanding block is out of reach. -/
theorem trips_alternate {s : State k} (h : (system k).Reachable s) (c : ConnId) :
    (∀ b, Rotates 2 (trips c b s.log)) ∧
    AtEach (fun before e => ∀ b, e = .accept c b →
      b ∈ marks c before ∧ written c before = encode (marks c before)) s.log ∧
    (s.conn c).newBlocks.buf.Nodup ∧
    (∀ b ∈ (s.conn c).newBlocks.buf, (s.conn c).outstanding b = false) ∧
    ∀ d i, s.panic ≠ some (.alreadyOutstanding d i) := by
  have hinv := inv_of_reachable h
  have htraced := (traced_of_reachable h).conn c
  refine ⟨htraced.rotates, htraced.accepted, ?_, fun b hb => hinv.not_outstanding hb, ?_⟩
  · refine List.nodup_iff_count_le_one.mpr fun b => ?_
    have honce := hinv.exclusive.once c b
    unfold Conn.holds at honce
    omega
  · intro d i
    rcases panic_of_reachable h with hp | ⟨errno, hp⟩ <;> rw [hp] <;> simp

/-- The index of block `b` is written in two pieces, and the client's return of block zero is there
before the second. -/
def roundTripRun (b : k.Index) : List (Label k) :=
  .run .newConn :: .fill b 1 :: dispatchRun ++ fanOutRun 0 ++
    [.conn 0 .newBlock, .conn 0 .go, .conn 0 .go, .conn 0 (.wrote 3),
      .reads 0 (.data [0, 0, 0, 0]), .reads 0 .eof, .conn 0 (.wrote 1), .conn 0 .oldBlock]

/-- The only block goes to the client and comes back: one mark, one accepted return. -/
theorem trips_alternate_roundtrip : ∃ s : State ⟨1, by decide⟩,
    (system ⟨1, by decide⟩).exec (State.initial _) (roundTripRun 0) = some s ∧
    trips 0 0 s.log = [0, 1] ∧ Rotates 2 (trips 0 0 s.log) := by
  obtain ⟨s, hs, htrips⟩ : ∃ s : State ⟨1, by decide⟩,
      (system ⟨1, by decide⟩).exec (State.initial _) (roundTripRun 0) = some s ∧
      trips 0 0 s.log = [0, 1] :=
    ⟨_, rfl, rfl⟩
  exact ⟨s, hs, htrips, (trips_alternate (System.reachable_of_exec hs) 0).1 0⟩

end Testimony.Daemon
