import Testimony.Proofs.EndToEnd

/-!
# `Testimony.Proofs.Conserved`: no index gets lost

`never_reject` rests on an upper bound: a block that the daemon has marked as outstanding is in one
place at most. Here it is in one place exactly, as long as the connection is in its main loop and no
`send` of the program has failed. So a block that is out can come back.

An index is forgotten at the end of the main loop, with what `handleReads` has passed on, and when
`send` fails, because the client has cleared its count by then.
-/

set_option autoImplicit false

namespace Testimony.Daemon

open Lib

variable {k : Conf} {s s' : State k} {c : ConnId} {cn cn' : Conn k}

/-- The main loop forgets no return. It may accept one. -/
theorem Conn.RunMove.returning_le {ch : ConnChoice} {es : List (Event k)}
    (hm : cn.RunMove c ch cn' es)
    (hloop : cn'.pc.looping = true) : cn.pc.looping = true ∧
      (cn'.outstanding = cn.outstanding → ∀ i, cn.returning i ≤ cn'.returning i) := by
  cases hm with
  | recvNew hpc | mark hpc | batchMore hpc | batchDone hpc | wrote hpc =>
      exact ⟨by rw [hpc]; rfl, fun _ _ => Nat.le_refl _⟩
  | @accept b q hpc hq hb =>
      refine ⟨by rw [hpc]; rfl, fun hout => ?_⟩
      have hfalse := congrFun hout b
      simp [hb] at hfalse
  | reject | endOfReads | writeError | close | drainNew | drainNewDone | drainOldDone | sweepHit
  | sweepMiss | sweepDone => cases hloop
  | drainOld hpc =>
      dsimp only at hloop
      rw [hpc] at hloop
      cases hloop

/-- A step of `handleReads` loses no return. -/
theorem Conn.ReadsMove.returning_le {inp : ReadInput} (hm : cn.ReadsMove inp cn') (i : Nat) :
    cn.returning i ≤ cn'.returning i := by
  cases hm with
  | word hpc | short hpc | value hpc => simp [Conn.returning, hpc]
  | stop hpc => rcases hpc with hpc | ⟨n, hpc⟩ <;> simp [Conn.returning, hpc]
  -- From the hands of `handleReads` into `oldBlocks`.
  | post hpc hq =>
      obtain ⟨-, -, hbuf⟩ := Chan.send_eq_sent hq
      simp only [Conn.returning, hpc, hbuf, List.count_append, List.count_singleton, beq_iff_eq,
        ReadsPc.post.injEq, reduceCtorEq, if_false]
      omega
  | closeOldBlocks hpc hq =>
      obtain ⟨-, -, hbuf⟩ := Chan.close_eq_some hq
      simp [Conn.returning, hpc, hbuf]

/-- What a step leaves of the returns of a connection that is in its main loop behind it. -/
def Retains (c : ConnId) (s s' : State k) : Prop :=
  (s'.conn c).pc.looping = true → (s.conn c).pc.looping = true ∧
    ((s'.conn c).outstanding = (s.conn c).outstanding →
      ∀ i, (s.conn c).returning i ≤ (s'.conn c).returning i)

/-- A connection that is not touched keeps its returns. -/
theorem Retains.refl (hconn : s'.conn = s.conn) : Retains c s s' := by
  intro hloop
  rw [hconn] at hloop ⊢
  exact ⟨hloop, fun _ _ => Nat.le_refl _⟩

/-- A step that changes connection `d`. -/
theorem Retains.update {d : ConnId} (hconn : s'.conn = Function.update s.conn d cn)
    (hd : c = d → cn.pc.looping = true → (s.conn d).pc.looping = true ∧
      (cn.outstanding = (s.conn d).outstanding →
        ∀ i, (s.conn d).returning i ≤ cn.returning i)) : Retains c s s' := by
  intro hloop
  rw [hconn] at hloop ⊢
  by_cases hcd : c = d
  · subst hcd
    rw [Function.update_self] at hloop ⊢
    exact hd rfl hloop
  · rw [Function.update_of_ne hcd] at hloop ⊢
    exact ⟨hloop, fun _ _ => Nat.le_refl _⟩

/-- No move drops a return on its way to `conn.run`, as long as the connection is in its main loop
and the return is not accepted. -/
theorem Move.retains {l : Label k} (hm : Move s l s') (hc : c < s.numConns) : Retains c s s' := by
  cases hm with
  | fill | dispatch | take | runClear | countZero | statusSet | notReady | waited | ref | delete
  | visit | endRange | skipped | runUnref | runUnrefZero => exact .refl rfl
  | register hpc => exact .update rfl fun hcd => absurd (hcd ▸ hc) (Nat.lt_irrefl _)
  | oldConn hpc hc' hold => exact .update rfl nofun
  | closeNewBlocks hpc hq | sent hpc hq =>
      exact .update rfl fun _ hloop => ⟨hloop, fun _ _ => Nat.le_refl _⟩
  | connUnref hc' hpc hr | connUnrefZero hc' hpc hr =>
      exact .update rfl fun _ hloop => ⟨(Conn.looping_resume (.inl hpc) (by simp) hloop).1,
        fun _ _ => Nat.le_refl _⟩
  | connClear hc' hpc =>
      exact .update rfl fun _ hloop => ⟨(Conn.looping_resume (.inr hpc) (.inl rfl) hloop).1,
        fun _ _ => Nat.le_refl _⟩
  | connRun hc' hmove => exact .update rfl fun _ => hmove.returning_le
  | connReads hc' hmove =>
      exact .update rfl fun _ hloop =>
        ⟨hmove.frame.1 ▸ hloop, fun _ => hmove.returning_le⟩

/-- No step drops a return either, as the invariants leave only moves and a failing
`WaitForBlocks`. -/
theorem retains_of_step {l : Label k} (hr : (system k).Reachable s) (h : step s l = some s')
    (hc : c < s.numConns) : Retains c s s' := by
  rcases (inv_of_reachable hr).step_cases h with hm | ⟨errno, -, -, rfl⟩
  · exact hm.retains hc
  · exact .refl rfl

end Testimony.Daemon

namespace Testimony.Session

open Lib Lib.BigEndian Source Client Daemon Wire

variable {k : Conf} {c : ConnId} {t : T} {s s' : State k}

/-- A `send` of an index has failed. -/
def SendFailed (f : Failure) : Prop := ∃ e, f = .ret e .send

/-- Every outstanding block is somewhere, if the connection is up and nothing was lost. -/
def Conserved (c : ConnId) (s : State k) : Prop :=
  (s.daemon.conn c).pc.looping = true → (∀ f ∈ s.caller.failures, ¬ SendFailed f) →
    ∀ i, (s.daemon.conn c).owed i ≤ places c s i

/-- A connection that is not there yet owes nothing. -/
theorem owed_eq_zero {d : Daemon.State k} (h : (Daemon.system k).Reachable d)
    (hc : ¬ c < d.numConns) (i : Nat) : (d.conn c).owed i = 0 := by
  have htraced := traced_of_reachable h
  have hout : ∀ b, (d.conn c).outstanding b = false := fun b => by
    by_contra hne
    have hmem := (htraced.conn c).marked b (Bool.eq_true_of_not_eq_false hne)
    rw [(trace_nil (htraced.unborn c (Nat.not_lt.mp hc))).1] at hmem
    cases hmem
  unfold Conn.owed
  split
  · rw [hout]
    rfl
  · rfl

/-- A step of the daemon loses no block. -/
theorem Conserved.daemon {l : Daemon.Label k} {d : Daemon.State k} (hs : Conserved c s)
    (h : Inv c s) (hl : fromClient c l = false) (hstep : Daemon.step s.daemon l = some d) :
    Conserved c (s.setDaemon c d) := by
  intro hloop hfail i
  have hdata : ∀ bytes, l ≠ .reads c (.data bytes) := by
    rintro bytes rfl
    simp [fromClient] at hl
  have hlen := h.length_seen
  have hle : (s.daemon.conn c).owed i ≤ places c s i := by
    by_cases hc : c < s.daemon.numConns
    · exact hs (retains_of_step h.reach hstep hc hloop).1 hfail i
    · rw [owed_eq_zero h.reach hc]
      exact Nat.zero_le _
  simp only [places, unread, State.setDaemon] at hle ⊢
  cases (handles_of_step h.reach hstep c hdata).1 with
  | keep hout hret hmarks =>
      rw [hmarks, Conn.owed_congr hout]
      by_cases hc : c < s.daemon.numConns
      · have hret := (retains_of_step h.reach hstep hc hloop).2 hout i
        omega
      · rw [owed_eq_zero h.reach hc]
        exact Nat.zero_le _
  | mark b hb hout hret hmarks =>
      rw [hmarks, List.drop_append_of_le_length hlen, List.map_append, List.count_append, hret i]
      by_cases hi : i = b.val
      · -- The block is in the stream now.
        subst hi
        have hone := (d.conn c).owed_le_one b
        simp only [List.map_cons, List.map_nil, List.count_singleton_self]
        omega
      · rw [Conn.owed_update_of_ne hout hi]
        omega
  | accept b hout hret hmarks =>
      have hret := hret i
      rw [hmarks]
      by_cases hi : i = b.val
      · subst hi
        rw [Conn.owed_val, hout, Function.update_self]
        exact Nat.zero_le _
      · rw [Conn.owed_update_of_ne hout hi]
        rw [if_neg hi] at hret
        omega

/-- The index that `handleReads` reads from the stream is one that it passes on, so the block is
still in one place. -/
theorem Conserved.deliver {w : UInt32} {ws : List UInt32} {d : Daemon.State k}
    (hs : Conserved c s) (h : Inv c s) (hk : k.numBlocks < 2 ^ 31) (hback : s.back = w :: ws)
    (hpc : (s.daemon.conn c).reads = .read)
    (hstep : Daemon.step s.daemon (.reads c (.data (putUint32 w))) = some d) :
    Conserved c { s with daemon := d, back := ws } := by
  obtain ⟨hconn, hlog⟩ := step_data (Daemon.inv_of_reachable h.reach) hpc hstep
  rw [h.classify_back hk (hback ▸ List.mem_cons_self ..), afterWord] at hconn
  intro hloop hfail i
  have hle := hs (by rw [hconn] at hloop; exact hloop) hfail i
  have howed : (d.conn c).owed i = (s.daemon.conn c).owed i := by
    rw [hconn]
    exact Conn.owed_congr rfl i
  simp only [places, unread, hback, List.map_cons, List.count_cons, beq_iff_eq] at hle
  simp only [places, unread, hlog, howed]
  simp only [hconn, Conn.returning, hpc, reduceCtorEq, if_false, ReadsPc.post.injEq,
    Nat.add_right_cancel_iff] at hle ⊢
  omega

/-- A step of the program other than a read. -/
theorem Conserved.act {call : Call} {caller : Caller} (hs : Conserved c s) (h : Inv c s)
    (hread : ∀ timeout polls, call ≠ .read timeout polls) (hm : s.caller.Move call caller) :
    Conserved c { s with caller := caller, back := s.back ++ outgoing call } := by
  intro hloop hfail i
  have hold : ∀ f ∈ s.caller.failures, f ∈ caller.failures := by
    intro f hf
    cases hm with
    | readFailed | sendFailed => exact List.mem_append_left _ hf
    | _ => exact hf
  -- No block is lost, since no `send` fails.
  have hdropped : dropped call = [] := by
    cases hm with
    | sendFailed hx => exact absurd ⟨_, rfl⟩ (hfail _ (List.mem_append_right _ List.mem_cons_self))
    | _ => rfl
  have hseen : caller.seen = s.caller.seen := by
    cases hm with
    | index | noIndex | readFailed => exact absurd rfl (hread _ _)
    | claim hpc => simp [Caller.seen, hpc, GetPc.claimed]
    | _ => rfl
  have hle := hs hloop (fun f hf => hfail f (hold f hf)) i
  have hmove := held_move hm h.ok i hread
  rw [hdropped, List.map_nil, List.count_nil, Nat.add_zero] at hmove
  simp only [places, unread, hseen, List.map_append, List.count_append] at hle ⊢
  omega

/-- `testimony_get_block` looks for an index. -/
theorem Conserved.read {timeout : Int} {polls : List Poll} {caller : Caller}
    (hs : Conserved c s) (hk : k.numBlocks < 2 ^ 31)
    (hm : s.caller.Move (.read timeout polls) caller) (h' : Inv c { s with caller := caller }) :
    Conserved c { s with caller := caller } := by
  intro hloop hfail i
  cases hm with
  | @index _ _ x sock hpc hx =>
      have hle := hs hloop hfail i
      have hseen : ({ s.caller.setSock sock with getter := .claim x } : Caller).seen =
          s.caller.seen ++ [x] := by
        simp [Caller.seen, hpc, GetPc.claimed, Caller.setSock]
      -- The index was the first one in the stream.
      obtain ⟨js, hjs⟩ := h'.seen
      rw [hseen] at hjs
      have hwords : words c s = s.caller.seen ++ [x] ++ js := hjs.symm
      simp only [places, unread_eq hk, hseen] at hle ⊢
      change _ ≤ (((words c s).drop (s.caller.seen ++ [x]).length).map _).count i + _ + _ + _
      rw [hwords, List.drop_left]
      rw [hwords, List.append_assoc, List.drop_left] at hle
      simp only [held, hpc, GetPc.claimed, Caller.setSock, List.cons_append, List.nil_append,
        List.map_cons, List.map_nil, List.count_cons, List.count_nil, beq_iff_eq] at hle ⊢
      omega
  | noIndex hpc hx => exact hs hloop hfail i
  | readFailed hpc hx => exact hs hloop (fun f hf => hfail f (List.mem_append_left _ hf)) i

/-- No step of the session loses a block. -/
theorem Conserved.step {l : Label k} (hs : Conserved c s) (h : Inv c s)
    (hk : k.numBlocks < 2 ^ 31) (hstep : step c s l = some s') : Conserved c s' := by
  have h' := h.step hk hstep
  cases step_cases hstep with
  | daemon hl hd => exact hs.daemon h hl hd
  | deliver hback hpc hd => exact hs.deliver h hk hback hpc hd
  | arrive | stop => exact hs
  | @call call caller hcaller =>
      have hm := h.ok.step_cases hcaller
      cases call with
      | read timeout polls =>
          have hread := hs.read hk hm (by simpa [outgoing] using h')
          simpa [outgoing] using hread
      | _ => exact hs.act h (by rintro _ _ ⟨⟩) hm

/-- No run of the session loses a block. -/
theorem conserved_of_reachable (hk : k.numBlocks < 2 ^ 31) (ht : t.Initiated k.numBlocks)
    (hsock : pending t.sock = []) (h : (system k c t).Reachable s) : Conserved c s := by
  refine h.invariant (P := Conserved c) ?_ fun _ _ _ hr hs hstep =>
    hs.step (inv_of_initiated hk ht hsock hr) hk hstep
  intro _ _ i
  have hzero : ((system k c t).init.daemon.conn c).owed i = 0 :=
    owed_eq_zero (d := (Daemon.system k).init) .init (Nat.not_lt_zero c) i
  exact (Nat.le_of_eq hzero).trans (Nat.zero_le _)

/-- A session keeps track of all blocks: while the connection is in its main loop and no `send` of
the program has failed, each outstanding block has its index in exactly one place, and no other
block has one anywhere. The places are the stream to the client, the hands of the program, the
stream back, and `handleReads` with `oldBlocks`. -/
theorem never_lost (hk : k.numBlocks < 2 ^ 31) (ht : t.Initiated k.numBlocks)
    (hsock : pending t.sock = []) (h : (system k c t).Reachable s)
    (hloop : (s.daemon.conn c).pc.looping = true)
    (hfail : ∀ f ∈ s.caller.failures, ¬ SendFailed f) (b : k.Index) :
    places c s b = ((s.daemon.conn c).outstanding b).toNat := by
  rw [← Conn.owed_val]
  exact Nat.le_antisymm ((inv_of_initiated hk ht hsock h).places_le b)
    (conserved_of_reachable hk ht hsock h hloop hfail b)

/-- The program has returned one of two packets of its block. -/
theorem never_lost_half : ∃ s : State ⟨1, by decide⟩,
    (system ⟨1, by decide⟩ 0 (T.onRing 1 [])).Reachable s ∧ s.caller.held 0 = some ⟨2, 1⟩ ∧
    places 0 s 0 = 1 := by
  have hrun : (((system ⟨1, by decide⟩ 0 (T.onRing 1 [])).exec
      (system ⟨1, by decide⟩ 0 (T.onRing 1 [])).init
      (heldRun 0 ++ [.call (.returnPackets 0 1)])).map fun s =>
      (s.caller.held 0, s.caller.failures, (s.daemon.conn 0).pc,
        (s.daemon.conn 0).outstanding 0)) = some (some ⟨2, 1⟩, [], .select, true) := by
    decide +kernel
  obtain ⟨s, hexec, heq⟩ := Option.map_eq_some_iff.mp hrun
  simp only [Prod.mk.injEq] at heq
  obtain ⟨hheld, hfail, hpc, hout⟩ := heq
  have hreach := System.reachable_of_exec hexec
  have hplaces := never_lost (by decide) (T.initiated_onRing (show 1 < 2 ^ 32 by decide) [])
    (by decide) hreach (by rw [hpc]; rfl) (by rw [hfail]; nofun) 0
  rw [hout] at hplaces
  exact ⟨s, hreach, hheld, hplaces⟩

end Testimony.Session
