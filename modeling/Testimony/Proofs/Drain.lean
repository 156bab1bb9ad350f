import Testimony.Proofs.Conserved
import Testimony.Proofs.Daemon.Up

/-!
# `Testimony.Proofs.Drain`: every block comes back

`never_lost` says where a block is that is out. Here it comes back: from every state of a session
that is up, the two sides can go on to one in which the program has been given every block taken for
it and has returned them all, and the connection holds nothing (`session_drains`). No step of the
kernel, no other client and no lucky timing is needed for it.

The daemon comes to rest by itself (`Testimony.Proofs.Daemon.Rest`). What is left then is up to the
client and the wire, and each of their steps brings an index one place further: from the stream into
the program's hands, out of them, and back to `handleReads`. `todo` counts the places that are still
ahead of all indexes together.
-/

set_option autoImplicit false

namespace Testimony.Client

/-- What a program keeps beside its counts: the descriptor, the mapping, and a packet of each block
that it has begun to return. -/
structure Caller.Fit (t : T) (c : Caller) : Prop where
  sockFd_eq : c.t.sockFd = t.sockFd
  ring_eq : c.t.ring = t.ring
  left : ∀ i h, c.held i = some h → h.left = h.numPkts ∨ 0 < h.left

variable {t : T} {c c' : Caller}

/-- A change of one hold keeps the rest. -/
theorem Caller.Fit.put (h : c.Fit t) (i : Nat) (hold : Option Hold)
    (hhold : ∀ hd, hold = some hd → hd.left = hd.numPkts ∨ 0 < hd.left) : (c.put i hold).Fit t where
  sockFd_eq := h.sockFd_eq
  ring_eq := h.ring_eq
  left j hd hj := by
    simp only [Caller.put] at hj
    by_cases hji : j = i
    · subst hji
      rw [Function.update_self] at hj
      exact hhold hd hj
    · rw [Function.update_of_ne hji] at hj
      exact h.left j hd hj

/-- No call of the program changes the descriptor or the mapping, or leaves a hold with no
packet. -/
theorem Caller.Move.fit {call : Call} (hm : c.Move call c') (h : c.Fit t) : c'.Fit t := by
  cases hm with
  | index | noIndex | readFailed | sent | sendFailed => exact ⟨h.sockFd_eq, h.ring_eq, h.left⟩
  | @claim x numPkts hpc =>
      have hput := h.put x.toNat (some ⟨numPkts, numPkts⟩) fun hd heq => by
        cases heq
        exact .inl rfl
      exact ⟨hput.sockFd_eq, hput.ring_eq, hput.left⟩
  | returnSome hheld hp =>
      refine h.put _ _ fun hd heq => ?_
      cases heq
      exact .inr (UInt32.lt_iff_toNat_lt.mpr (by
        rw [UInt32.toNat_sub_of_le _ _ (UInt32.le_of_lt hp)]
        exact Nat.sub_pos_of_lt (UInt32.lt_iff_toNat_lt.mp hp)))
  | @returnBlock i | @returnLast i | @reset i =>
      have hput := h.put i none nofun
      exact ⟨hput.sockFd_eq, hput.ring_eq, hput.left⟩

end Testimony.Client

namespace Testimony.Session

open Lib Lib.BigEndian Source Client Daemon Wire

variable {k : Conf} {c : ConnId} {t : T} {s s' : State k}

/-- In every run of a session the program keeps its descriptor and its mapping, and no hold is
without a packet. -/
theorem fit_of_reachable (hk : k.numBlocks < 2 ^ 31) (ht : t.Initiated k.numBlocks)
    (hsock : pending t.sock = []) (h : (system k c t).Reachable s) : s.caller.Fit t := by
  refine h.invariant (P := fun s => s.caller.Fit t) ⟨rfl, rfl, nofun⟩ ?_
  intro s l s' hr hs hstep
  cases step_cases hstep with
  | daemon | deliver => exact hs
  | arrive | stop => exact ⟨hs.sockFd_eq, hs.ring_eq, hs.left⟩
  | call hcaller => exact ((inv_of_initiated hk ht hsock hr).ok.step_cases hcaller).fit hs

/-! ### A session that is up -/

/-- The steps of a session that is left alone: those of the daemon by itself, of the wire, and of a
program whose calls do not fail. `pkts` says how many packets there are in a block. -/
def Alone (pkts : Nat → UInt32) (slow gone : Set ConnId) (s : State k) : Label k → Prop
  | .daemon l => Own slow gone s.daemon l
  | .deliver => True
  | .arrive _ => True
  | .stop _ => False
  | .call (.claim numPkts) => ∀ x, s.caller.getter = .claim x → numPkts = pkts x.toNat
  | .call (.reset i numPkts) => numPkts = pkts i
  | .call (.send _ errno) => errno = none
  | .call _ => True

/-- The connection is up on both sides, and no index was lost. -/
structure Running (t : T) (c : ConnId) (s : State k) : Prop where
  reach : (system k c t).ReachableBy (Guarded NoStaleLoad) s
  panic : s.daemon.panic = none
  registered : c < s.daemon.numConns
  up : (s.daemon.conn c).Up
  opened : ending s.caller.t.sock = .blocked
  sent : ∀ f ∈ s.caller.failures, ¬ SendFailed f

variable {pkts : Nat → UInt32} {slow gone : Set ConnId}

/-- What comes back is outstanding. -/
theorem Inv.returnsDue (h : Inv c s) : (s.daemon.conn c).ReturnsDue := by
  intro v q hq
  have hmem : v ∈ (s.daemon.conn c).oldBlocks.buf := by
    rw [(Chan.recv_eq_got hq).1]
    exact List.mem_cons_self
  obtain ⟨hpos, -⟩ := ((Daemon.inv_of_reachable h.reach).life.ok c).posted v hmem
  obtain ⟨i, rfl⟩ := Nat.exists_eq_add_one_of_ne_zero (Nat.ne_of_gt hpos)
  have hcount := List.count_pos_iff.mpr hmem
  obtain ⟨-, b, rfl, hb⟩ := h.index (i := i) (by simp only [places, Conn.returning]; omega)
  exact ⟨b, rfl, hb⟩

section
variable (hk : k.numBlocks < 2 ^ 31) (ht : t.Initiated k.numBlocks) (hsock : pending t.sock = [])

include hk ht hsock

/-- A session that is up has the invariant of all sessions. -/
theorem Running.inv (h : Running t c s) : Inv c s :=
  inv_of_initiated hk ht hsock h.reach.reachable

/-- A step of the daemon by itself. -/
theorem Running.own {l : Daemon.Label k} {d : Daemon.State k} (h : Running t c s)
    (hgone : c ∉ gone) (hown : Own slow gone s.daemon l)
    (hstep : Daemon.step s.daemon l = some d) :
    step c s (.daemon l) = some (s.setDaemon c d) ∧ Running t c (s.setDaemon c d) := by
  have hinv := h.inv hk ht hsock
  have hdaemon := Daemon.inv_of_reachable hinv.reach
  have hm := hdaemon.move_of_step hstep hown.external_eq
  have hl : fromClient c l = false := by
    cases l with
    | reads d inp =>
        cases inp with
        | data bytes => exact absurd hown.external_eq nofun
        | _ => rfl
    | _ => rfl
  have hsession : step c s (.daemon l) = some (s.setDaemon c d) := by
    simp [Session.step, hl, hstep]
  refine ⟨hsession, ?_⟩
  exact {
    reach := h.reach.step (e := .daemon l) hown.1 hsession
    panic := (hown.work_le (daemon_of_guarded (fun _ _ => trivial) h.reach) hstep).2.1
    registered := (hm.inHand hdaemon.life hown.external_eq).1 ▸ h.registered
    up := hm.up h.up (hdaemon.life.ok c) hinv.returnsDue hown hgone
    opened := h.opened
    sent := h.sent }

/-- A run of the daemon by itself is one of the session. -/
theorem Running.lift {d : Daemon.State k} (h : Running t c s) (pkts : Nat → UInt32)
    (hgone : c ∉ gone)
    (hrun : ((Daemon.system k).startAt s.daemon).ReachableBy (Own slow gone) d) :
    ∃ s', ((system k c t).startAt s).ReachableBy (Alone pkts slow gone) s' ∧ Running t c s' ∧
      s'.daemon = d ∧ s'.caller = s.caller ∧ s'.back = s.back := by
  refine System.ReachableBy.simulates (M := (Daemon.system k).startAt s.daemon)
    (N := (system k c t).startAt s)
    (R := fun d s' => Running t c s' ∧ s'.daemon = d ∧ s'.caller = s.caller ∧ s'.back = s.back)
    ⟨h, rfl, rfl, rfl⟩ ?_ hrun
  rintro _ l d' s₁ - ⟨h₁, rfl, hcaller, hback⟩ hown hstep
  obtain ⟨hsession, h'⟩ := h₁.own hk ht hsock hgone hown hstep
  exact ⟨s₁.setDaemon c d', .one (e := .daemon l) hown hsession, h', rfl, hcaller, hback⟩

/-! ### What is left to do -/

omit hk ht hsock in
/-- A step of the program that goes well. -/
theorem Running.act {call : Call} {caller : Caller} (h : Running t c s)
    (hstep : s.caller.step call = some caller) (hending : ending caller.t.sock = .blocked)
    (hfail : caller.failures = s.caller.failures) :
    step c s (.call call) =
      some { s with caller := caller, back := s.back ++ outgoing call } ∧
    Running t c { s with caller := caller, back := s.back ++ outgoing call } := by
  have hsession : step c s (.call call) =
      some { s with caller := caller, back := s.back ++ outgoing call } := by
    simp [Session.step, hstep]
  refine ⟨hsession, ?_⟩
  exact {
    reach := h.reach.step (e := .call call) trivial hsession
    panic := h.panic
    registered := h.registered
    up := h.up
    opened := hending
    sent := by rw [hfail]; exact h.sent }

end

/-- The number of blocks the program has. -/
def loans (k : Conf) (caller : Caller) : Nat :=
  ∑ i ∈ Finset.range k.numBlocks, (caller.held i).isSome.toNat

/-- How far all indexes together are from the end of their way. A block that is filled and not yet
marked has the whole way ahead. -/
def todo (c : ConnId) (s : State k) : Nat :=
  7 * ((fills s.daemon.log).length - (marks c s.daemon.log).length) + 6 * (unread c s).length +
    5 * s.caller.getter.claimed.length + 4 * loans k s.caller + 3 * s.caller.resets.length +
    2 * s.caller.sends.length + s.back.length

/-- A change of one hold changes the number of holds by that one. -/
theorem loans_put (caller : Caller) {i : Nat} (hi : i < k.numBlocks) (hold : Option Hold) :
    loans k (caller.put i hold) + (caller.held i).isSome.toNat =
      loans k caller + hold.isSome.toNat := by
  have hmem : i ∈ Finset.range k.numBlocks := Finset.mem_range.mpr hi
  unfold loans
  rw [← Finset.add_sum_erase _ _ hmem,
    ← Finset.add_sum_erase _ (fun j => (caller.held j).isSome.toNat) hmem]
  have hrest : ∑ j ∈ (Finset.range k.numBlocks).erase i, ((caller.put i hold).held j).isSome.toNat =
      ∑ j ∈ (Finset.range k.numBlocks).erase i, (caller.held j).isSome.toNat := by
    refine Finset.sum_congr rfl fun j hj => ?_
    simp only [Caller.put]
    rw [Function.update_of_ne (Finset.ne_of_mem_erase hj)]
  have hself : (caller.put i hold).held i = hold := Function.update_self ..
  rw [hrest, hself]
  omega

/-- The daemon at rest has brought each index on its way, or left it where it was. -/
theorem todo_le {d : Daemon.State k} (hr : (Daemon.system k).ReachableBy NoStaleLoad s.daemon)
    (hseen : s.caller.seen.length ≤ (marks c s.daemon.log).length)
    (hrun : ((Daemon.system k).startAt s.daemon).ReachableBy (Own slow gone) d)
    (hd : s'.daemon = d) (hcaller : s'.caller = s.caller) (hback : s'.back = s.back) :
    todo c s' ≤ todo c s := by
  subst hd
  have hfills := (frame_of_run hr hrun).2
  have hr' : (Daemon.system k).ReachableBy NoStaleLoad s'.daemon :=
    hr.trans (hrun.mono fun _ _ hG => hG.1)
  have hmarks : (marks c s.daemon.log).length ≤ (marks c s'.daemon.log).length := by
    obtain ⟨es, hes⟩ := log_le_of_run hr.reachable hrun
    rw [← hes, marks_append, List.length_append]
    exact Nat.le_add_right _ _
  have hle := length_marks_le hr' c
  simp only [todo, unread, hcaller, hback, List.length_map, List.length_drop, hfills] at hle ⊢
  omega

/-- There is less to do after a step of the program that is not a read. A block that is returned by
its packets is returned by all that are left. -/
theorem todo_act {call : Call} {caller : Caller} (h : Inv c s) (hm : s.caller.Move call caller)
    (hread : ∀ timeout polls, call ≠ .read timeout polls)
    (hall : ∀ i packets hd, call = .returnPackets i packets → s.caller.held i = some hd →
      packets = hd.left) :
    todo c { s with caller := caller, back := s.back ++ outgoing call } < todo c s := by
  have hreturn : ∀ i hd, s.caller.held i = some hd →
      loans k (s.caller.put i none) + 1 = loans k s.caller := by
    intro i hd hheld
    have hput := loans_put s.caller (h.blockNr_eq ▸ h.ok.held_lt i hd hheld) none
    rwa [hheld] at hput
  cases hm with
  | index | noIndex | readFailed => exact absurd rfl (hread _ _)
  | @claim x numPkts hpc =>
      have hfree := h.ok.claim x hpc
      have hput := loans_put s.caller (h.blockNr_eq ▸ hfree.lt) (some ⟨numPkts, numPkts⟩)
      simp only [hfree.held, Option.isSome_none, Option.isSome_some, Bool.toNat_false,
        Bool.toNat_true] at hput
      simp only [todo, unread, Caller.seen, hpc, GetPc.claimed, outgoing, List.append_nil,
        List.length_nil, List.length_singleton]
      simp only [loans, Caller.put] at hput ⊢
      omega
  | @returnBlock i hd hheld =>
      have hput := hreturn i hd hheld
      simp only [todo, unread, Caller.seen, outgoing, List.append_nil, List.length_append,
        List.length_singleton]
      simp only [loans, Caller.put] at hput ⊢
      omega
  | @returnSome i hd packets hheld hp =>
      rw [hall i packets hd rfl hheld] at hp
      exact absurd hp (UInt32.lt_irrefl _)
  | @returnLast i hd packets hheld hp =>
      have hput := hreturn i hd hheld
      simp only [todo, unread, Caller.seen, outgoing, List.append_nil, List.length_append,
        List.length_singleton]
      simp only [loans, Caller.put] at hput ⊢
      omega
  | @reset i numPkts hi =>
      obtain ⟨hjlt, hheld⟩ := h.ok.resets i hi
      have hput := loans_put s.caller (h.blockNr_eq ▸ hjlt) none
      have herase := List.length_erase_of_mem hi
      have hpos := List.length_pos_of_mem hi
      simp only [hheld, Option.isSome_none, Bool.toNat_false] at hput
      simp only [todo, unread, Caller.seen, outgoing, List.append_nil, List.length_append,
        List.length_singleton]
      simp only [loans, Caller.put] at hput ⊢
      omega
  | @sent x hx =>
      have herase := List.length_erase_of_mem hx
      have hpos := List.length_pos_of_mem hx
      simp only [todo, unread, loans, Caller.seen, outgoing, List.length_append,
        List.length_singleton]
      omega
  | @sendFailed x e hx =>
      have herase := List.length_erase_of_mem hx
      have hpos := List.length_pos_of_mem hx
      simp only [todo, unread, loans, Caller.seen, outgoing, List.append_nil]
      omega

/-! ### From one place to the next -/

/-- The session can go on to a state in which there is less to do. -/
def Advances (pkts : Nat → UInt32) (slow gone : Set ConnId) (t : T) (c : ConnId) (s : State k) :
    Prop :=
  ∃ s', ((system k c t).startAt s).ReachableBy (Alone pkts slow gone) s' ∧ Running t c s' ∧
    todo c s' < todo c s

section
variable (hk : k.numBlocks < 2 ^ 31) (ht : t.Initiated k.numBlocks) (hsock : pending t.sock = [])

include hk ht hsock

/-- By a call of the program that is not a read. -/
theorem Running.advances_call (h : Running t c s) (call : Call)
    (hG : Alone pkts slow gone s (.call call))
    (hread : ∀ timeout polls, call ≠ .read timeout polls)
    (hall : ∀ i packets hd, call = .returnPackets i packets → s.caller.held i = some hd →
      packets = hd.left) (hsome : (s.caller.step call).isSome = true) :
    Advances pkts slow gone t c s := by
  obtain ⟨caller, hstep⟩ := Option.isSome_iff_exists.mp hsome
  have hinv := h.inv hk ht hsock
  have hm := hinv.ok.step_cases hstep
  have hframe : caller.t.sock = s.caller.t.sock ∧ caller.failures = s.caller.failures := by
    cases hm with
    | index | noIndex | readFailed => exact absurd rfl (hread _ _)
    | sendFailed => cases hG
    | _ => exact ⟨rfl, rfl⟩
  obtain ⟨hsession, h'⟩ := h.act hstep (by rw [hframe.1]; exact h.opened) hframe.2
  exact ⟨_, .one (e := .call call) hG hsession, h', todo_act hinv hm hread hall⟩

/-- A word of the program gets to `handleReads`. -/
theorem Running.advances_deliver {w : UInt32} {ws : List UInt32} (h : Running t c s)
    (hback : s.back = w :: ws) (hreads : (s.daemon.conn c).reads = .read) :
    Advances pkts slow gone t c s := by
  have hword : (s.daemon.conn c).handleReadsStep (.data (putUint32 w)) =
      some (.ok { s.daemon.conn c with reads := afterWord (classify k.numBlocks w) } []) := by
    simp [Conn.handleReadsStep, hreads, h.up.notClosed]
  obtain ⟨d, hd, hpanic, hnum⟩ : ∃ d,
      Daemon.step s.daemon (.reads c (.data (putUint32 w))) = some d ∧ d.panic = none ∧
        d.numConns = s.daemon.numConns := by
    rw [step_reads h.panic h.registered, hword]
    exact ⟨_, rfl, h.panic, rfl⟩
  obtain ⟨hconn, hlog⟩ := step_data (Daemon.inv_of_reachable (h.inv hk ht hsock).reach) hreads hd
  rw [(h.inv hk ht hsock).classify_back hk (hback ▸ List.mem_cons_self ..), afterWord] at hconn
  have hsession : step c s .deliver = some { s with daemon := d, back := ws } := by
    simp only [Session.step, hback, hreads, if_true, hd, Option.map_some]
  refine ⟨_, .one (e := .deliver) trivial hsession, ?_, ?_⟩
  · exact {
      reach := h.reach.step (e := .deliver) trivial hsession
      panic := hpanic
      registered := hnum ▸ h.registered
      up := by
        rw [hconn]
        exact ⟨h.up.looping, .inr ⟨_, rfl⟩, h.up.notClosed⟩
      opened := h.opened
      sent := h.sent }
  · simp only [todo, unread, hlog, hback, List.length_cons]
    omega

omit hk ht hsock in
/-- What is on its way to the client arrives. -/
theorem Running.exists_arrived (h : Running t c s) (pkts : Nat → UInt32) (slow gone : Set ConnId) :
    ∃ s',
    ((system k c t).startAt s).ReachableBy (Alone pkts slow gone) s' ∧ Running t c s' ∧
      s'.net = [] ∧ s'.daemon = s.daemon ∧ s'.caller.getter = s.caller.getter ∧
      unread c s' = unread c s ∧ todo c s' = todo c s := by
  by_cases hnet : s.net = []
  · exact ⟨s, .refl s, h, hnet, rfl, rfl, rfl, rfl⟩
  · have hsession : step c s (.arrive s.net.length) =
        some { s.push (Seg.unread (s.net.take s.net.length) []) with
          net := s.net.drop s.net.length } := by
      simp [Session.step, List.length_pos_iff.mpr hnet]
    refine ⟨_, .one (e := .arrive _) trivial hsession, ?_, List.drop_length, rfl, rfl, rfl, rfl⟩
    exact {
      reach := h.reach.step (e := .arrive _) trivial hsession
      panic := h.panic
      registered := h.registered
      up := h.up
      opened := by
        change ending (s.caller.t.sock.push _) = _
        rw [Sock.ending_push, if_pos h.opened, Seg.ending_unread]
        rfl
      sent := h.sent }

/-- All that `conn.run` has marked is sent and has arrived: it is what the program can read. -/
theorem Running.pending_eq (h : Running t c s) (hnet : s.net = [])
    (hwritten : written c s.daemon.log = encode (marks c s.daemon.log)) {js : List UInt32}
    (hjs : words c s = s.caller.seen ++ js) : pending s.caller.t.sock = encodeIndexes js := by
  obtain ⟨lost, hlost, hstream⟩ := (h.inv hk ht hsock).stream
  have hencode : encode (marks c s.daemon.log) =
      encodeIndexes s.caller.seen ++ encodeIndexes js := by
    rw [encode_eq, ← encodeIndexes_append, ← hjs, words]
  rw [hlost h.opened, hnet, hwritten, hencode, List.append_nil, List.append_nil] at hstream
  exact List.append_cancel_left hstream

/-- The program reads the next index. -/
theorem Running.advances_read (h : Running t c s) (hidle : s.caller.getter = .idle)
    (hunread : unread c s ≠ []) (hnet : s.net = [])
    (hwritten : written c s.daemon.log = encode (marks c s.daemon.log)) :
    Advances pkts slow gone t c s := by
  have hinv := h.inv hk ht hsock
  have hfit := fit_of_reachable hk ht hsock h.reach.reachable
  obtain ⟨js, hwords, hjs, hle⟩ := hinv.rest hk
  have hpending := h.pending_eq hk ht hsock hnet hwritten hwords
  cases js with
  | nil => exact absurd hjs.symm hunread
  | cons x js =>
      obtain ⟨sock, hread, -, hending⟩ := readIndex_ok (hfit.sockFd_eq ▸ ht.sockFd_ne)
        (hfit.ring_eq ▸ ht.ring_ne) (fun y hy => Inv.lt_of_mem_words (c := c) (s := s) hk
          (by rw [hwords]; exact List.mem_append_right _ hy)) hle
        (by rw [hpending, length_encodeIndexes, List.length_cons]; omega)
      have hstep : s.caller.step (.read (-1) []) =
          some { s.caller.setSock sock with getter := .claim x } := by
        simp only [Caller.step, hidle, hread]
        rfl
      obtain ⟨hsession, h'⟩ := h.act hstep (hending.trans h.opened) rfl
      refine ⟨_, .one (e := .call (.read (-1) [])) trivial hsession, h', ?_⟩
      -- The index is in the program's hands now.
      have hlt : s.caller.seen.length < (marks c s.daemon.log).length := by
        have hlen := congrArg List.length hwords
        simp only [words, List.length_map, List.length_append, List.length_cons] at hlen
        omega
      simp only [Caller.seen, hidle, GetPc.claimed, List.append_nil] at hlt
      simp only [todo, unread, loans, Caller.seen, Caller.setSock, hidle, GetPc.claimed, outgoing,
        List.append_nil, List.length_append, List.length_map, List.length_drop, List.length_nil,
        List.length_singleton]
      omega

/-! ### The end of the way -/

omit hk ht hsock in
/-- The connection at rest waits for its client. -/
theorem Running.waits (h : Running t c s) (hrest : AtRest slow gone s.daemon) (hslow : c ∉ slow) :
    (s.daemon.conn c).pc = .select ∧ (s.daemon.conn c).newBlocks.buf = [] ∧
      (s.daemon.conn c).oldBlocks.buf = [] ∧ (s.daemon.conn c).reads = .read := by
  have hreach := (daemon_of_guarded (fun _ _ => trivial) h.reach).reachable
  rcases hrest.still.conn_cases hreach h.panic h.registered with
    ⟨hpc, -⟩ | ⟨hpc, hnew, hold, hreading, -⟩ | ⟨rest, -, hmem, -⟩
  · have hloop := h.up.looping
    rw [hpc] at hloop
    cases hloop
  · refine ⟨hpc, hnew, hold, h.up.reads.resolve_right ?_⟩
    rintro ⟨v, hv⟩
    rw [hv] at hreading
    rcases hreading with hread | ⟨n, hvalue⟩
    · cases hread
    · cases hvalue
  · exact absurd hmem hslow

/-- No index is on its way, and the program has no block. -/
structure Drained (c : ConnId) (s : State k) : Prop where
  unread : unread c s = []
  getter : s.caller.getter = .idle
  held : ∀ i, s.caller.held i = none
  resets : s.caller.resets = []
  sends : s.caller.sends = []
  back : s.back = []

/-- At rest there is nothing left to do, or the client and the wire can do some of it. -/
theorem Running.drained_or_advances (h : Running t c s) (pkts : Nat → UInt32)
    (hrest : AtRest slow gone s.daemon) (hslow : c ∉ slow) :
    Drained c s ∨ Advances pkts slow gone t c s := by
  obtain ⟨hpc, hnew, -, hreads⟩ := h.waits hrest hslow
  cases hback : s.back with
  | cons w ws => exact .inr (h.advances_deliver hk ht hsock hback hreads)
  | nil =>
  cases hsends : s.caller.sends with
  | cons x xs =>
      exact .inr (h.advances_call hk ht hsock (.send x none) rfl (by rintro _ _ ⟨⟩)
        (by rintro _ _ _ ⟨⟩) (by simp [Caller.step, hsends]))
  | nil =>
  cases hresets : s.caller.resets with
  | cons i is =>
      exact .inr (h.advances_call hk ht hsock (.reset i (pkts i)) rfl (by rintro _ _ ⟨⟩)
        (by rintro _ _ _ ⟨⟩) (by simp [Caller.step, hresets]))
  | nil =>
  by_cases hheld : ∃ i hd, s.caller.held i = some hd
  · obtain ⟨i, hd, hheld⟩ := hheld
    -- The block is returned as a whole, or by the packets that are left.
    rcases (fit_of_reachable hk ht hsock h.reach.reachable).left i hd hheld with hleft | hleft
    · exact .inr (h.advances_call hk ht hsock (.returnBlock i) trivial (by rintro _ _ ⟨⟩)
        (by rintro _ _ _ ⟨⟩) (by simp [Caller.step, hheld, hleft]))
    · refine .inr (h.advances_call hk ht hsock (.returnPackets i hd.left) trivial
        (by rintro _ _ ⟨⟩) ?_ ?_)
      · rintro j packets hd' ⟨⟩ hheld'
        rw [hheld] at hheld'
        cases hheld'
        rfl
      · simp only [Caller.step, hheld, hleft, UInt32.le_refl, and_self, if_true]
        split <;> rfl
  cases hgetter : s.caller.getter with
  | claim x =>
      refine .inr (h.advances_call hk ht hsock (.claim (pkts x.toNat)) ?_ (by rintro _ _ ⟨⟩)
        (by rintro _ _ _ ⟨⟩) ?_)
      · rintro y hy
        rw [hgetter] at hy
        cases hy
        rfl
      · simp only [Caller.step, hgetter]
        split <;> rfl
  | idle =>
  by_cases hunread : unread c s = []
  · exact .inl ⟨hunread, hgetter, fun i => Option.eq_none_iff_forall_ne_some.mpr fun hd heq =>
      hheld ⟨i, hd, heq⟩, hresets, hsends, hback⟩
  · obtain ⟨s₁, hrun, h₁, hnet, hdaemon, hidle, hunread₁, htodo⟩ :=
      h.exists_arrived pkts slow gone
    have hreach := (daemon_of_guarded (fun _ _ => trivial) h.reach).reachable
    have hsent := (hrest.still.marks_eq hreach h.panic h.registered hpc hnew).2
    obtain ⟨s', hrun', h', hlt⟩ : Advances pkts slow gone t c s₁ :=
      h₁.advances_read hk ht hsock (hidle.trans hgetter) (by rwa [hunread₁]) hnet (by rwa [hdaemon])
    exact .inr ⟨s', hrun.trans hrun', h', by omega⟩

/-- The way to the end. -/
theorem Running.exists_drained (h : Running t c s) (pkts : Nat → UInt32) (hslow : c ∉ slow)
    (hgone : c ∉ gone) :
    ∃ s', ((system k c t).startAt s).ReachableBy (Alone pkts slow gone) s' ∧ Running t c s' ∧
      AtRest slow gone s'.daemon ∧ Drained c s' := by
  have hstep : ∀ s, Running t c s →
      (∃ s', ((system k c t).startAt s).ReachableBy (Alone pkts slow gone) s' ∧ Running t c s' ∧
        AtRest slow gone s'.daemon ∧ Drained c s') ∨ Advances pkts slow gone t c s := by
    intro s h
    have hguard := daemon_of_guarded (fun _ _ => trivial) h.reach
    obtain ⟨d, hown, -, hrest⟩ := exists_rest slow gone hguard h.panic
    obtain ⟨s₁, hrun, h₁, hd, hcaller, hback⟩ := h.lift hk ht hsock pkts hgone hown
    have htodo := todo_le hguard (h.inv hk ht hsock).length_seen hown hd hcaller hback
    subst hd
    rcases h₁.drained_or_advances hk ht hsock pkts hrest hslow with
      hdrained | ⟨s₂, hrun₂, h₂, hlt⟩
    · exact .inl ⟨s₁, hrun, h₁, hrest, hdrained⟩
    · exact .inr ⟨s₂, hrun.trans hrun₂, h₂, by omega⟩
  obtain ⟨s₁, hrun, -, s', hrun', hs'⟩ := System.exists_of_measure (todo c) hstep h
  exact ⟨s', hrun.trans hrun', hs'⟩

/-- What it means for the connection. -/
theorem Running.released (h : Running t c s) (hrest : AtRest slow gone s.daemon) (hslow : c ∉ slow)
    (hdrained : Drained c s) (b : k.Index) : (s.daemon.conn c).holds b = 0 := by
  obtain ⟨hpc, hnew, hold, hreads⟩ := h.waits hrest hslow
  have hplaces : places c s b = 0 := by
    simp [places, held, Conn.returning, hdrained.unread, hdrained.getter, hdrained.held,
      hdrained.resets, hdrained.sends, hdrained.back, hreads, hold, GetPc.claimed]
  have howed := conserved_of_reachable hk ht hsock h.reach.reachable h.up.looping h.sent b
  rw [hplaces, Conn.owed_val] at howed
  have hout : (s.daemon.conn c).outstanding b = false := by
    cases hb : (s.daemon.conn c).outstanding b with
    | false => rfl
    | true => rw [hb] at howed; cases howed
  simp [Conn.holds, hnew, hpc, ConnPc.holds, Conn.owes, hout]

/-- And for the program. -/
theorem Running.given_all (h : Running t c s) (hrest : AtRest slow gone s.daemon) (hslow : c ∉ slow)
    (hdrained : Drained c s) : s.caller.given =
      (takesSince c s.daemon.log).map fun b : k.Index => UInt32.ofNat b.val := by
  obtain ⟨hpc, hnew, -⟩ := h.waits hrest hslow
  have hinv := h.inv hk ht hsock
  have hmarks := (hrest.still.marks_eq hinv.reach h.panic h.registered hpc hnew).1
  have hlen := congrArg List.length hdrained.unread
  rw [unread, List.length_map, List.length_drop, List.length_nil] at hlen
  have hseen := hinv.seen.eq_of_length_le (by rw [words, List.length_map]; omega)
  rw [← hmarks, ← words, ← hseen, Caller.seen, hdrained.getter, GetPc.claimed, List.append_nil]

end

/-- From every state of a session that is up, in a run without a stale load, the two sides can go on
by themselves until the daemon is at rest, the program has been given every block that `socket.run`
took for it, it has returned them all, and the connection holds nothing. It does not matter what the
other clients do, how many packets there are in a block, or how far the blocks have come. -/
theorem session_drains (hk : k.numBlocks < 2 ^ 31) (ht : t.Initiated k.numBlocks)
    (hsock : pending t.sock = []) (pkts : Nat → UInt32) (slow gone : Set ConnId)
    (h : Running t c s) (hslow : c ∉ slow) (hgone : c ∉ gone) :
    ∃ s', ((system k c t).startAt s).ReachableBy (Alone pkts slow gone) s' ∧
      AtRest slow gone s'.daemon ∧
      s'.caller.given =
        (takesSince c s'.daemon.log).map (fun b : k.Index => UInt32.ofNat b.val) ∧
      (∀ i, s'.caller.held i = none) ∧ ∀ b, (s'.daemon.conn c).holds b = 0 := by
  obtain ⟨s', hrun, h', hrest, hdrained⟩ :=
    h.exists_drained hk ht hsock pkts hslow hgone
  exact ⟨s', hrun, hrest, h'.given_all hk ht hsock hrest hslow hdrained, hdrained.held,
    h'.released hk ht hsock hrest hslow hdrained⟩

/-- The program has returned one of two packets of its block, and a second block is on its way. -/
theorem session_drains_half : ∃ s s' : State ⟨2, by decide⟩,
    Running (T.onRing 2 []) 0 s ∧ s.caller.held 0 = some ⟨2, 1⟩ ∧ s.net = [0, 0, 0, 1] ∧
    ((system ⟨2, by decide⟩ 0 (T.onRing 2 [])).startAt s).ReachableBy (Alone (fun _ => 2) ∅ ∅) s' ∧
    AtRest ∅ ∅ s'.daemon ∧ s'.caller.held 0 = none ∧ (s'.daemon.conn 0).holds 0 = 0 := by
  have hrun : (((system ⟨2, by decide⟩ 0 (T.onRing 2 [])).execBy (Guarded NoStaleLoad)
      (system ⟨2, by decide⟩ 0 (T.onRing 2 [])).init
      (heldRun 0 ++ .call (.returnPackets 0 1) ::
        (.run .go :: .run .go :: deliverRun 1 0).map .daemon)).map fun s =>
      (s.caller.held 0, s.net, (s.daemon.conn 0).pc, (s.daemon.conn 0).reads,
        s.daemon.panic.isNone && s.daemon.numConns == 1 && !(s.daemon.conn 0).closed &&
          s.caller.t.sock.segs.isEmpty && s.caller.failures.isEmpty)) =
      some (some ⟨2, 1⟩, [0, 0, 0, 1], .select, .read, true) := by
    decide +kernel
  obtain ⟨s, hexec, heq⟩ := Option.map_eq_some_iff.mp hrun
  simp only [Prod.mk.injEq] at heq
  obtain ⟨hheld, hnet, hpc, hreads, hrest⟩ := heq
  simp only [Bool.and_eq_true, beq_iff_eq, Bool.not_eq_true'] at hrest
  obtain ⟨⟨⟨⟨hpanic, hnum⟩, hclosed⟩, hsegs⟩, hfail⟩ := hrest
  have hrunning : Running (T.onRing 2 []) 0 s := {
    reach := System.ReachableBy.init.exec _ hexec
    panic := Option.isNone_iff_eq_none.mp hpanic
    registered := by rw [hnum]; exact Nat.zero_lt_one
    up := ⟨by rw [hpc]; rfl, .inl hreads, hclosed⟩
    opened := by
      change Seg.ending s.caller.t.sock.segs = _
      rw [List.isEmpty_iff.mp hsegs]
      rfl
    sent := by rw [List.isEmpty_iff.mp hfail]; nofun }
  obtain ⟨s', hdrain, hrest, -, hnone, hholds⟩ := session_drains (by decide)
    (T.initiated_onRing (show 2 < 2 ^ 32 by decide) []) (by decide) (fun _ => 2) ∅ ∅ hrunning
    (Set.notMem_empty _) (Set.notMem_empty _)
  exact ⟨s, s', hrunning, hheld, hnet, hdrain, hrest, hnone 0, hholds 0⟩

end Testimony.Session
