import Testimony.Lib.CInt
import Testimony.Proofs.Daemon.Returns
import Testimony.Proofs.Stream
import Testimony.Session

/-!
# `Testimony.Proofs.Session`: a well-behaved C client and the daemon get along

An index the daemon has marked as outstanding is in one place at a time: in the stream to the
client, with the program, in the stream back, or with `handleReads` and `oldBlocks`. `places`
counts them, and `Inv.places` says that there is at most one for each outstanding block, and
none for another. So a block the client is sent is one it does not have, and a return that
arrives is one `conn.run` waits for (`never_reject`).
-/

set_option autoImplicit false

namespace Testimony.Client

open Lib Lib.BigEndian Source Wire

/-- A failure that blames the other side or the program: an index that should not have come, or
a return that should not have been made. -/
def Failure.Rejection : Failure → Prop
  | .get _ (.invalidIndex _ _) | .get _ (.casFailed _ _) => True
  | .ret _ .foreign | .ret _ .countInvalid | .ret _ .overflows => True
  | _ => False

/-- What has come of a stream of block indexes is some of them and less than one more. -/
theorem exists_take_encodeIndexes (is : List UInt32) : ∀ bytes, bytes <+: encodeIndexes is →
    ∃ n part, bytes = encodeMsgs ((is.take n).map .block) ++ part ∧ part.length < 4 := by
  induction is with
  | nil =>
      intro bytes h
      exact ⟨0, [], by rw [List.prefix_nil.mp h]; rfl, by decide⟩
  | cons i is ih =>
      intro bytes h
      by_cases hlen : bytes.length < 4
      · exact ⟨0, bytes, rfl, hlen⟩
      · -- The first index has come as a whole.
        have hcons : encodeIndexes (i :: is) = putUint32 i ++ encodeIndexes is := List.flatMap_cons
        rw [hcons] at h
        obtain ⟨rest, rfl⟩ : putUint32 i <+: bytes :=
          List.prefix_of_prefix_length_le (List.prefix_append _ _) h
            (by rw [length_putUint32]; omega)
        obtain ⟨n, part, rfl, hpart⟩ := ih rest ((List.prefix_append_right_inj _).mp h)
        exact ⟨n + 1, part, (List.append_assoc ..).symm, hpart⟩

/-- What a call of `testimony_get_block` does on a stream of block indexes. -/
def Fetched (is : List UInt32) (t : T) : EStateM.Result (Stop GetMsg) Sock (Option UInt32) → Prop
  | .ok (some x) sock => (∃ js, is = x :: js) ∧
      pending t.sock = putUint32 x ++ pending sock ∧ ending sock = ending t.sock
  | .ok none sock => pending sock = pending t.sock ∧ ending sock = ending t.sock
  | .error (.fail e msg) sock => ¬ (Failure.get e msg).Rejection ∧ ending sock = ending t.sock ∧
      (pending sock = pending t.sock ∨ ending t.sock ≠ .blocked ∧ pending sock = [])
  | .error .blocked _ => True

/-- On a stream of indexes `testimony_get_block` takes the first one or none, and never calls it
invalid. -/
theorem fetched_readIndex {t : T} {is : List UInt32} (his : ∀ x ∈ is, x.toNat < 2 ^ 31)
    (hle : pending t.sock <+: encodeIndexes is) (timeout : Int) (polls : List Poll) :
    Fetched is t (readIndex t timeout polls) := by
  by_cases hinit : t.sockFd = 0 ∨ t.ring = 0
  · rw [readIndex, if_pos hinit]
    exact ⟨fun h => h, rfl, .inl rfl⟩
  · obtain ⟨hfd, hring⟩ := not_or.mp hinit
    obtain ⟨n, part, hpending, hpart⟩ := exists_take_encodeIndexes is _ hle
    have hmsgs : ∀ x, Msg.block x ∈ (is.take n).map Msg.block → x.toNat < 2 ^ 31 := by
      intro x hx
      obtain ⟨y, hy, hyx⟩ := List.mem_map.mp hx
      cases hyx
      exact his x (List.mem_of_mem_take hy)
    have hgot := readIndex_cases hfd hring timeout polls hpart hmsgs hpending
    -- There are only block indexes, so what is left is known from its indexes.
    have hrest : ∀ rest, rest <:+ (is.take n).map Msg.block →
        encodeMsgs rest = encodeIndexes (indexes rest) := by
      intro rest hsuffix
      obtain ⟨m, rfl⟩ : ∃ m, rest = ((is.take n).drop m).map Msg.block :=
        ⟨_, (List.suffix_iff_eq_drop.mp hsuffix).trans (List.map_drop ..).symm⟩
      rw [encodeMsgs_block, indexes_block]
    generalize readIndex t timeout polls = r at hgot
    cases hgot with
    | index hx hsuffix hp hending =>
        rw [indexes_block] at hx
        refine ⟨?_, ?_, hending⟩
        · cases is with
          | nil => simp at hx
          | cons i is =>
              cases n with
              | zero => simp at hx
              | succ n =>
                  rw [List.take_succ_cons] at hx
                  exact ⟨is, by rw [(List.cons.inj hx).1]⟩
        · rw [hpending, hp, encodeMsgs_block, hx, hrest _ hsuffix, ← List.append_assoc]
          rfl
    | timedOut htime hx hsuffix hp hending =>
        exact ⟨by rw [hp, hpending, hrest _ hsuffix, hx, indexes_block, encodeMsgs_block], hending⟩
    | pollFailed htime hx hsuffix hp hending =>
        exact ⟨fun h => h, hending,
          .inl (by rw [hp, hpending, hrest _ hsuffix, hx, indexes_block, encodeMsgs_block])⟩
    | ended hx he hp hending => exact ⟨fun h => h, hending, .inr ⟨he, hp⟩⟩
    | blocked hx => trivial

end Testimony.Client

namespace Testimony.Session

open Lib Lib.BigEndian Source Client Daemon Wire

variable {k : Conf}

/-! ### Steps -/

/-- What a step of a session does. -/
inductive Move (c : ConnId) (s : State k) : Label k → State k → Prop
  | daemon {l : Daemon.Label k} {d : Daemon.State k} (hl : fromClient c l = false)
      (hstep : Daemon.step s.daemon l = some d) : Move c s (.daemon l) (s.setDaemon c d)
  | deliver {w : UInt32} {ws : List UInt32} {d : Daemon.State k} (hback : s.back = w :: ws)
      (hpc : (s.daemon.conn c).reads = .read)
      (hstep : Daemon.step s.daemon (.reads c (.data (putUint32 w))) = some d) :
      Move c s .deliver { s with daemon := d, back := ws }
  | arrive {n : Nat} :
      Move c s (.arrive n)
        { s.push (Seg.unread (s.net.take n) []) with net := s.net.drop n }
  | stop {seg : Seg} (hseg : Seg.pending [seg] = []) : Move c s (.stop seg) (s.push [seg])
  | call {call : Call} {caller : Caller} (hstep : s.caller.step call = some caller) :
      Move c s (.call call) { s with caller := caller, back := s.back ++ outgoing call }

/-- A step of a session is one of these moves. -/
theorem step_cases {c : ConnId} {s s' : State k} {l : Label k} (h : step c s l = some s') :
    Move c s l s' := by
  cases l with
  | daemon l =>
      simp only [step] at h
      split at h
      · cases h
      · rename_i hl
        obtain ⟨d, hd, rfl⟩ := Option.map_eq_some_iff.mp h
        exact .daemon (by simpa using hl) hd
  | deliver =>
      simp only [step] at h
      split at h
      · cases h
      · rename_i hback
        split at h
        · rename_i hpc
          obtain ⟨d, hd, rfl⟩ := Option.map_eq_some_iff.mp h
          exact .deliver hback hpc hd
        · cases h
  | arrive n =>
      simp only [step] at h
      split at h <;> cases h
      exact .arrive
  | stop seg =>
      simp only [step] at h
      split at h <;> cases h
      exact .stop ‹_›
  | call call =>
      obtain ⟨caller, hcaller, rfl⟩ := Option.map_eq_some_iff.mp h
      exact .call hcaller

/-! ### Where an index can be -/

/-- How often block `i` is in the hands of the program. -/
def held (c : Caller) (i : Nat) : Nat :=
  (c.getter.claimed.map UInt32.toNat).count i + (c.held i).isSome.toNat +
    c.resets.count i + (c.sends.map UInt32.toNat).count i

/-- The blocks whose index was marked and that the program has not read. -/
def unread (c : ConnId) (s : State k) : List Nat :=
  ((marks c s.daemon.log).drop s.caller.seen.length).map Fin.val

/-- In how many places block `i` is between its mark and the end of its return. -/
def places (c : ConnId) (s : State k) (i : Nat) : Nat :=
  (unread c s).count i + held s.caller i + (s.back.map UInt32.toNat).count i +
    (s.daemon.conn c).returning i

/-- A step at which the daemon would find an invalid index in the stream, or a return of a
block that is not outstanding. -/
def Rejects (c : ConnId) (s : State k) : Label k → Prop
  | .deliver => ∃ w ws i, s.back = w :: ws ∧ classify k.numBlocks w = .invalid i
  | .daemon (.conn d .oldBlock) => d = c ∧ (s.daemon.conn c).pc = .select ∧
      ∃ i q, (s.daemon.conn c).oldBlocks.recv = .got (i + 1) q ∧
        ∀ h : i < k.numBlocks, (s.daemon.conn c).outstanding ⟨i, h⟩ = false
  | _ => False

/-- The indexes `conn.run` marked, as it sends them. -/
def words (c : ConnId) (s : State k) : List UInt32 :=
  (marks c s.daemon.log).map fun b : k.Index => UInt32.ofNat b.val

/-- What holds of a session at any time. The program keeps its books, and no call of it was
rejected. It has seen the first of the indexes that were marked for it. What it has read, can read
and will read is what `conn.run` has written, apart from bytes behind an end of the stream. No index
is in more places outside `conn.run` than it is outstanding. -/
structure Inv (c : ConnId) (s : State k) : Prop where
  reach : (Daemon.system k).Reachable s.daemon
  ok : s.caller.Ok
  blockNr_eq : s.caller.t.conn.blockNr = k.numBlocks
  seen : s.caller.seen <+: words c s
  -- What the client has read and can read, what came behind an end, and what is on its way.
  stream : ∃ lost, (ending s.caller.t.sock = .blocked → lost = []) ∧
    encodeIndexes s.caller.seen ++ pending s.caller.t.sock ++ lost ++ s.net =
      written c s.daemon.log
  places_le : ∀ i, places c s i ≤ (s.daemon.conn c).owed i
  failures : ∀ f ∈ s.caller.failures, ¬ f.Rejection

/-- What `conn.run` writes for blocks is what the client reads as words. -/
theorem encode_eq (bs : List k.Index) :
    encode bs = encodeIndexes (bs.map fun b : k.Index => UInt32.ofNat b.val) := by
  rw [encode, encodeIndexes, List.flatMap_map]

/-- A session starts with nothing read, nothing written and no block in the hands of the program. -/
theorem inv_init (c : ConnId) {t : T} (ht : t.Mapped) (hnr : t.conn.blockNr = k.numBlocks)
    (hcounts : ∀ i, t.blockCounts i = 0) (hsock : pending t.sock = []) :
    Inv c (system k c t).init where
  reach := .init
  ok := .start ht hcounts
  blockNr_eq := hnr
  seen := List.nil_prefix
  stream := ⟨[], fun _ => rfl, by simp [system, Caller.start, Caller.seen, GetPc.claimed, hsock,
    encodeIndexes, written, State.initial]⟩
  places_le := by
    intro i
    have hzero : places c (system k c t).init i = 0 := by
      simp [places, unread, held, system, Caller.start, GetPc.claimed, marks, State.initial,
        Conn.returning, Conn.fresh]
    rw [hzero]
    exact Nat.zero_le _
  failures := nofun

/-! ### Reading it off -/

section
variable {c : ConnId} {s : State k}

/-- A block that is somewhere is outstanding, and nowhere else. -/
theorem Inv.index {i : Nat} (h : Inv c s) (hi : 0 < places c s i) :
    places c s i = 1 ∧ ∃ b : k.Index, b.val = i ∧ (s.daemon.conn c).outstanding b = true := by
  have hle := h.places_le i
  have hone := (s.daemon.conn c).owed_le_one i
  refine ⟨by omega, ?_⟩
  have howed : 0 < (s.daemon.conn c).owed i := by omega
  unfold Conn.owed at howed
  split at howed
  · rename_i hlt
    refine ⟨⟨i, hlt⟩, rfl, ?_⟩
    cases hout : (s.daemon.conn c).outstanding ⟨i, hlt⟩ with
    | true => rfl
    | false => rw [hout] at howed; cases howed
  · cases howed

/-- The program has seen no more than was marked. -/
theorem Inv.length_seen (h : Inv c s) : s.caller.seen.length ≤ (marks c s.daemon.log).length := by
  have := h.seen.length_le
  rwa [words, List.length_map] at this

end

/-- The blocks the client has not read are the words it has not read. -/
theorem unread_eq (hk : k.numBlocks < 2 ^ 31) (c : ConnId) (s : State k) :
    unread c s = ((words c s).drop s.caller.seen.length).map UInt32.toNat := by
  rw [words, ← List.map_drop, unread, List.map_map]
  refine List.map_congr_left fun b _ => ?_
  exact (UInt32.toNat_ofNat_of_lt' (Nat.lt_trans b.isLt (Nat.lt_trans hk (by decide)))).symm

section
variable {c : ConnId} {s : State k}

/-- The indexes the client has not read yet. -/
theorem Inv.rest (h : Inv c s) (hk : k.numBlocks < 2 ^ 31) : ∃ js, words c s = s.caller.seen ++ js ∧
    js.map UInt32.toNat = unread c s ∧ pending s.caller.t.sock <+: encodeIndexes js := by
  obtain ⟨js, hjs⟩ := h.seen
  refine ⟨js, hjs.symm, ?_, ?_⟩
  · rw [unread_eq hk, ← hjs, List.drop_left]
  · obtain ⟨lost, -, hstream⟩ := h.stream
    have hle := ((traced_of_reachable h.reach).conn c).sent_le
    rw [← hstream, encode_eq] at hle
    change _ <+: encodeIndexes (words c s) at hle
    rw [← hjs, encodeIndexes_append, List.append_assoc, List.append_assoc,
      List.prefix_append_right_inj] at hle
    exact (List.prefix_append _ _).trans hle

/-- Each of them is below `2 ^ 31`. -/
theorem Inv.lt_of_mem_words (hk : k.numBlocks < 2 ^ 31) {x : UInt32} (hx : x ∈ words c s) :
    x.toNat < 2 ^ 31 := by
  obtain ⟨b, -, rfl⟩ := List.mem_map.mp hx
  rw [UInt32.toNat_ofNat_of_lt' (Nat.lt_trans b.isLt (Nat.lt_trans hk (by decide)))]
  exact Nat.lt_trans b.isLt hk

end

/-! ### Steps of the daemon -/

/-- A step of the daemon that does not read from the client. -/
theorem Inv.daemon {c : ConnId} {s : State k} {l : Daemon.Label k} {d : Daemon.State k}
    (h : Inv c s) (hl : fromClient c l = false) (hstep : Daemon.step s.daemon l = some d) :
    Inv c (s.setDaemon c d) := by
  have hdata : ∀ bytes, l ≠ .reads c (.data bytes) := by
    rintro bytes rfl
    simp [fromClient] at hl
  obtain ⟨hhandles, es, hes⟩ := handles_of_step h.reach hstep c hdata
  have hnew : d.log.drop s.daemon.log.length = es := by rw [hes]; simp
  have hlen := h.length_seen
  refine ⟨h.reach.step hstep, h.ok, h.blockNr_eq, ?_, ?_, fun i => ?_, h.failures⟩
  · -- Marks are only added.
    refine h.seen.trans ?_
    rw [words, words]
    show _ <+: (marks c d.log).map _
    rw [hes, marks_append, List.map_append]
    exact List.prefix_append _ _
  · obtain ⟨lost, hlost, hstream⟩ := h.stream
    refine ⟨lost, hlost, ?_⟩
    show _ ++ (s.net ++ written c (d.log.drop s.daemon.log.length)) = written c d.log
    rw [hnew, hes, written_append, ← hstream, List.append_assoc]
    simp only [List.append_assoc]
    rfl
  · have hle := h.places_le i
    simp only [places, unread, State.setDaemon] at hle ⊢
    cases hhandles with
    | keep hout hret hmarks =>
        have hret := hret i
        rw [hmarks, Conn.owed_congr hout]
        omega
    | mark b hb hout hret hmarks =>
        rw [hmarks, List.drop_append_of_le_length hlen, List.map_append, List.count_append, hret i]
        by_cases hi : i = b.val
        · -- The block was nowhere, and now it is in the stream.
          subst hi
          rw [Conn.owed_val, hb] at hle
          rw [Conn.owed_val, hout, Function.update_self]
          simp only [Bool.toNat_false, List.map_cons, List.map_nil, List.count_singleton_self,
            Bool.toNat_true] at hle ⊢
          omega
        · rw [Conn.owed_update_of_ne hout hi]
          have hzero : [b.val].count i = 0 :=
            List.count_eq_zero.mpr fun hmem => hi (List.mem_singleton.mp hmem)
          simp only [List.map_cons, List.map_nil, hzero]
          omega
    | accept b hout hret hmarks =>
        have hret := hret i
        rw [hmarks]
        by_cases hi : i = b.val
        · have hone := (s.daemon.conn c).owed_le_one i
          rw [if_pos hi] at hret
          omega
        · rw [Conn.owed_update_of_ne hout hi]
          rw [if_neg hi] at hret
          omega

/-- `handleReads` reads a word of the client. -/
theorem step_data {s d : Daemon.State k} {c : ConnId} {w : UInt32} (hs : Daemon.Inv s)
    (hpc : (s.conn c).reads = .read)
    (h : Daemon.step s (.reads c (.data (putUint32 w))) = some d) :
    d.conn c = { s.conn c with reads := afterWord (classify k.numBlocks w) } ∧ d.log = s.log := by
  rcases hs.step_cases h with hm | ⟨errno, -, hlabel, -⟩
  · cases hm with
    | connReads hc hmove =>
        cases hmove with
        | word =>
            refine ⟨?_, rfl⟩
            rw [uint32_putUint32]
            exact Function.update_self ..
        | short _ _ hlen => simp at hlen
        | stop _ hinp => rcases hinp with hinp | hinp <;> cases hinp
        | value hpc' | post hpc' | closeOldBlocks hpc' =>
            rw [hpc] at hpc'
            cases hpc'
  · cases hlabel

/-- A word of the program on its way is the index of an outstanding block. -/
theorem Inv.classify_back {c : ConnId} {s : State k} {w : UInt32} (h : Inv c s)
    (hk : k.numBlocks < 2 ^ 31) (hw : w ∈ s.back) :
    classify k.numBlocks w = .block w.toNat := by
  have hplace : 0 < places c s w.toNat := by
    have hcount := List.count_pos_iff.mpr (List.mem_map_of_mem (f := UInt32.toNat) hw)
    simp only [places]
    omega
  obtain ⟨-, b, hb, -⟩ := h.index hplace
  have hlt : w.toNat < k.numBlocks := hb ▸ b.isLt
  have htop : w &&& 0x80000000 = 0 := (and_top_eq_zero w).mpr (Nat.lt_trans hlt hk)
  simp only [classify, htop, ne_eq, not_true_eq_false, if_false]
  rw [if_neg (by omega)]

/-- When `handleReads` reads an index from the stream back, the block of the index is one that is
outstanding, so the index is valid, and it is in one place as before. -/
theorem Inv.deliver {c : ConnId} {s : State k} {w : UInt32} {ws : List UInt32}
    {d : Daemon.State k} (h : Inv c s) (hk : k.numBlocks < 2 ^ 31) (hback : s.back = w :: ws)
    (hpc : (s.daemon.conn c).reads = .read)
    (hstep : Daemon.step s.daemon (.reads c (.data (putUint32 w))) = some d) :
    Inv c { s with daemon := d, back := ws } := by
  obtain ⟨hconn, hlog⟩ := step_data (Daemon.inv_of_reachable h.reach) hpc hstep
  rw [h.classify_back hk (hback ▸ List.mem_cons_self ..), afterWord] at hconn
  have hwords : words c { s with daemon := d, back := ws } = words c s := by
    simp only [words, hlog]
  refine ⟨System.Reachable.step h.reach (e := .reads c (.data (putUint32 w))) hstep, h.ok,
    h.blockNr_eq, hwords ▸ h.seen, by rw [hlog]; exact h.stream, fun i => ?_, h.failures⟩
  have hle := h.places_le i
  -- The word moves from the stream into the hands of `handleReads`.
  simp only [places, unread, hback, List.map_cons, List.count_cons, beq_iff_eq] at hle
  have howed : (d.conn c).owed i = (s.daemon.conn c).owed i := by
    rw [hconn]
    exact Conn.owed_congr rfl i
  simp only [places, unread, hlog, howed]
  simp only [hconn, Conn.returning, hpc, reduceCtorEq, if_false, ReadsPc.post.injEq,
    Nat.add_right_cancel_iff] at hle ⊢
  omega

/-! ### The way to the client -/

/-- The steps that only concern what the client can read. -/
theorem Inv.push {c : ConnId} {s : State k} {segs : List Seg} {net : List UInt8} (h : Inv c s)
    (hstream : ∀ lost, (ending s.caller.t.sock = .blocked → lost = []) →
      ∃ lost', (ending (s.caller.t.sock.push segs) = .blocked → lost' = []) ∧
        pending (s.caller.t.sock.push segs) ++ lost' ++ net =
          pending s.caller.t.sock ++ lost ++ s.net) :
    Inv c { s.push segs with net := net } := by
  refine ⟨h.reach, h.ok.frame rfl rfl rfl rfl (fun _ hi => hi) (.inl rfl), h.blockNr_eq, h.seen,
    ?_, h.places_le, h.failures⟩
  obtain ⟨lost, hlost, heq⟩ := h.stream
  obtain ⟨lost', hlost', heq'⟩ := hstream lost hlost
  refine ⟨lost', hlost', ?_⟩
  show encodeIndexes s.caller.seen ++ pending (s.caller.t.sock.push segs) ++ lost' ++ net =
    written c s.daemon.log
  rw [← heq]
  simp only [List.append_assoc] at heq' ⊢
  rw [heq']

/-- Bytes that arrive at the client move from the net to its socket. -/
theorem Inv.arrive {c : ConnId} {s : State k} (h : Inv c s) (n : Nat) :
    Inv c { s.push (Seg.unread (s.net.take n) []) with net := s.net.drop n } := by
  refine h.push fun lost hlost => ?_
  have hbytes : Seg.pending (Seg.unread (s.net.take n) []) = s.net.take n := by
    rw [Seg.pending_unread]
    exact List.append_nil _
  rw [Sock.pending_push, Sock.ending_push, hbytes]
  by_cases hopen : ending s.caller.t.sock = .blocked
  · refine ⟨[], fun _ => rfl, ?_⟩
    rw [if_pos hopen, hlost hopen]
    simp
  · -- Behind an end it cannot be read any more.
    refine ⟨lost ++ s.net.take n, fun hb => ?_, ?_⟩
    · rw [if_neg hopen] at hb
      exact absurd hb hopen
    · rw [if_neg hopen]
      simp

/-- A signal or the end of the client's stream brings no bytes, so the stream is as before. -/
theorem Inv.stop {c : ConnId} {s : State k} (h : Inv c s) {seg : Seg}
    (hseg : Seg.pending [seg] = []) : Inv c (s.push [seg]) := by
  refine h.push fun lost hlost => ⟨lost, fun hb => hlost ?_, ?_⟩
  · by_contra hopen
    rw [Sock.ending_push, if_neg hopen] at hb
    exact hopen hb
  · rw [Sock.pending_push, hseg, List.append_nil, ite_self]

/-! ### Steps of the program -/

/-- A block the client is sent is not with the program. -/
theorem Inv.free {c : ConnId} {s : State k} {i : Nat} (h : Inv c s) (hi : i ∈ unread c s) :
    s.caller.Free i := by
  have hcount := List.count_pos_iff.mpr hi
  obtain ⟨hone, b, rfl, -⟩ := h.index (i := i) (by simp only [places]; omega)
  simp only [places] at hone
  refine ⟨by rw [h.blockNr_eq]; exact b.isLt, ?_, ?_⟩
  · cases hheld : s.caller.held b with
    | none => rfl
    | some hold =>
        simp only [held, hheld, Option.isSome_some, Bool.toNat_true] at hone
        omega
  · intro hmem
    have := List.count_pos_iff.mpr hmem
    simp only [held] at hone
    omega

/-- The program takes or gives up block `i`. -/
theorem held_put (c : Caller) (i j : Nat) (hold : Option Hold) :
    held (c.put i hold) j + (if i = j then (c.held i).isSome.toNat else 0) =
      held c j + (if i = j then hold.isSome.toNat else 0) := by
  simp only [held, Caller.put]
  by_cases hj : j = i
  · subst hj
    rw [Function.update_self, if_pos rfl, if_pos rfl]
    omega
  · rw [Function.update_of_ne hj, if_neg (Ne.symm hj), if_neg (Ne.symm hj)]

/-- One element less counts one less. -/
theorem count_erase {l : List Nat} {x : Nat} (hx : x ∈ l) (i : Nat) :
    l.count i = (l.erase x).count i + if x = i then 1 else 0 := by
  rw [(List.perm_cons_erase hx).count_eq, List.count_cons]
  simp only [beq_iff_eq]

/-- One element less counts one less, for indexes that are kept as words. -/
theorem count_map_erase {l : List UInt32} {x : UInt32} (hx : x ∈ l) (i : Nat) :
    (l.map UInt32.toNat).count i =
      ((l.erase x).map UInt32.toNat).count i + if x.toNat = i then 1 else 0 := by
  rw [((List.perm_cons_erase hx).map UInt32.toNat).count_eq, List.map_cons, List.count_cons]
  simp only [beq_iff_eq]

/-- A return call puts a block among those to be sent. -/
theorem count_sends {l : List UInt32} {i : Nat} (hi : i < 2 ^ 32) (j : Nat) :
    ((l ++ [UInt32.ofNat i]).map UInt32.toNat).count j =
      (l.map UInt32.toNat).count j + if i = j then 1 else 0 := by
  rw [List.map_append, List.count_append, List.map_singleton, UInt32.toNat_ofNat_of_lt' hi,
    List.count_singleton]
  simp only [beq_iff_eq]

/-- What a call of the program loses: the index whose `send` fails. -/
def dropped : Call → List UInt32
  | .send x (some _) => [x]
  | _ => []

/-- A step of the program other than reading takes a block from one place to the next. It leaves the
program's hands only for the stream to the daemon, or where a `send` fails. -/
theorem held_move {c c' : Caller} {call : Call} (hm : c.Move call c') (h : c.Ok) (i : Nat)
    (hread : ∀ timeout polls, call ≠ .read timeout polls) :
    held c' i + ((outgoing call).map UInt32.toNat).count i +
      ((dropped call).map UInt32.toNat).count i = held c i := by
  have hlt : ∀ j, j < c.t.conn.blockNr → j < 2 ^ 32 := fun j hj =>
    Nat.lt_trans hj h.mapped.blockNr_lt
  cases hm with
  | index | noIndex | readFailed => exact absurd rfl (hread _ _)
  -- From the call that has read the index to the blocks in use.
  | @claim x numPkts hpc =>
      have hput := held_put c x.toNat i (some ⟨numPkts, numPkts⟩)
      have hfree := (h.claim x hpc).held
      simp only [hfree, Option.isSome_none, Option.isSome_some, Bool.toNat_false,
        Bool.toNat_true, ite_self] at hput
      simp only [held, Caller.put, hpc, GetPc.claimed, outgoing, dropped, List.map_cons,
        List.map_nil, List.count_singleton, List.count_nil, beq_iff_eq] at hput ⊢
      omega
  -- From there to the indexes that wait to be sent, at once or by way of a reset of the count.
  | @returnBlock j hold hheld =>
      have hput := held_put c j i none
      have hsends := count_sends (l := c.sends) (hlt j (h.held_lt j hold hheld)) i
      simp only [hheld, Option.isSome_none, Option.isSome_some, Bool.toNat_false,
        Bool.toNat_true, ite_self] at hput
      simp only [held, Caller.put, outgoing, dropped, List.map_nil, List.count_nil] at hput ⊢
      omega
  | @returnSome j hold packets hheld hp =>
      have hput := held_put c j i (some { hold with left := hold.left - packets })
      simp only [hheld, Option.isSome_some] at hput
      simp only [outgoing, dropped, List.map_nil, List.count_nil]
      omega
  | @returnLast j hold packets hheld hp =>
      have hput := held_put c j i none
      simp only [hheld, Option.isSome_none, Option.isSome_some, Bool.toNat_false,
        Bool.toNat_true, ite_self] at hput
      simp only [held, Caller.put, outgoing, dropped, List.map_nil, List.count_nil,
        List.count_append, List.count_singleton, beq_iff_eq] at hput ⊢
      omega
  | @reset j numPkts hj =>
      obtain ⟨hjlt, hheld⟩ := h.resets j hj
      have hput := held_put c j i none
      have hresets := count_erase hj i
      have hsends := count_sends (l := c.sends) (hlt j hjlt) i
      simp only [hheld, Option.isSome_none, Bool.toNat_false, ite_self] at hput
      simp only [held, Caller.put, outgoing, dropped, List.map_nil, List.count_nil] at hput ⊢
      omega
  -- And on to the daemon, or nowhere.
  | @sent x hx =>
      have hsends := count_map_erase hx i
      simp only [held, outgoing, dropped, List.map_cons, List.map_nil, List.count_singleton,
        List.count_nil, beq_iff_eq]
      omega
  | @sendFailed x e hx =>
      have hsends := count_map_erase hx i
      simp only [held, outgoing, dropped, List.map_cons, List.map_nil, List.count_singleton,
        List.count_nil, beq_iff_eq]
      omega

/-- A step of the program other than a read. -/
theorem Inv.act {c : ConnId} {s : State k} {call : Call} {caller : Caller} (h : Inv c s)
    (hread : ∀ timeout polls, call ≠ .read timeout polls) (hm : s.caller.Move call caller) :
    Inv c { s with caller := caller, back := s.back ++ outgoing call } := by
  have hok : caller.Ok := hm.ok h.ok fun timeout polls _ _ hcall _ _ =>
    absurd hcall (hread timeout polls)
  have hseen : caller.seen = s.caller.seen ∧ caller.t.conn = s.caller.t.conn ∧
      caller.t.sock = s.caller.t.sock := by
    cases hm with
    | index hpc hx => exact absurd rfl (hread _ _)
    | noIndex hpc hx => exact absurd rfl (hread _ _)
    | readFailed hpc hx => exact absurd rfl (hread _ _)
    | claim hpc => exact ⟨by simp [Caller.seen, hpc, GetPc.claimed], rfl, rfl⟩
    | _ => exact ⟨rfl, rfl, rfl⟩
  obtain ⟨hseen, hconn, hsock⟩ := hseen
  refine ⟨h.reach, hok, by rw [hconn]; exact h.blockNr_eq, by rw [hseen]; exact h.seen,
    by rw [hseen, hsock]; exact h.stream, fun i => ?_, ?_⟩
  · have hmove := held_move hm h.ok i hread
    have hle := h.places_le i
    simp only [places, unread, hseen, List.map_append, List.count_append] at hle ⊢
    omega
  · cases hm with
    | readFailed hpc hx => exact absurd rfl (hread _ _)
    | sendFailed hx =>
        intro f hf
        rcases List.mem_append.mp hf with hf | hf
        · exact h.failures f hf
        · rw [List.mem_singleton.mp hf]
          exact fun hrej => hrej
    | _ => exact h.failures

/-- `testimony_get_block` looks for an index. -/
theorem Inv.read {c : ConnId} {s : State k} {timeout : Int} {polls : List Poll} {caller : Caller}
    (h : Inv c s) (hk : k.numBlocks < 2 ^ 31) (hm : s.caller.Move (.read timeout polls) caller) :
    Inv c { s with caller := caller } := by
  obtain ⟨js, hwords, hunread, hle⟩ := h.rest hk
  have hfetched : Fetched js s.caller.t (readIndex s.caller.t timeout polls) :=
    fetched_readIndex (fun x hx => Inv.lt_of_mem_words (c := c) (s := s) hk
      (by rw [hwords]; exact List.mem_append_right _ hx)) hle timeout polls
  obtain ⟨lost, hlost, hstream⟩ := h.stream
  cases hm with
  | @index _ _ x sock hpc hx =>
      rw [hx] at hfetched
      obtain ⟨⟨js', rfl⟩, hpending, hending⟩ := hfetched
      have hfree : s.caller.Free x.toNat := h.free (by rw [← hunread]; simp)
      have hseen : ({ s.caller.setSock sock with getter := .claim x } : Caller).seen =
          s.caller.seen ++ [x] := by
        simp [Caller.seen, hpc, GetPc.claimed, Caller.setSock]
      refine ⟨h.reach, Caller.Move.ok (.index hpc hx) h.ok ?_, h.blockNr_eq, ?_, ?_, fun i => ?_,
        h.failures⟩
      · intro timeout' polls' y sock' hcall _ hy
        cases hcall
        rw [hx] at hy
        cases hy
        exact hfree
      · rw [hseen]
        show _ <+: words c s
        rw [hwords]
        exact ⟨js', by simp⟩
      · refine ⟨lost, fun hb => hlost (hending ▸ hb), ?_⟩
        rw [hseen]
        show encodeIndexes (s.caller.seen ++ [x]) ++ pending sock ++ lost ++ s.net = _
        rw [← hstream, hpending, encodeIndexes_append]
        simp [encodeIndexes]
      · -- The index moves from the stream to the getter.
        have hplaces := h.places_le i
        have hrest : unread c
            { s with caller := { s.caller.setSock sock with getter := .claim x } } =
            js'.map UInt32.toNat := by
          rw [unread_eq hk, hseen]
          show ((words c s).drop (s.caller.seen ++ [x]).length).map _ = _
          have hcons : s.caller.seen ++ x :: js' = s.caller.seen ++ [x] ++ js' := by simp
          rw [hwords, hcons, List.drop_left]
        simp only [places, ← hunread, List.map_cons, List.count_cons, beq_iff_eq, held, hpc,
          GetPc.claimed, List.map_nil, List.count_nil] at hplaces
        rw [places, hrest]
        simp only [held, GetPc.claimed, Caller.setSock, List.map_cons, List.map_nil,
          List.count_singleton, beq_iff_eq]
        omega
  | @noIndex _ _ sock hpc hx =>
      rw [hx] at hfetched
      obtain ⟨hpending, hending⟩ := hfetched
      refine ⟨h.reach, h.ok.frame rfl rfl rfl rfl (fun _ hi => hi) (.inl rfl), h.blockNr_eq, h.seen,
        ⟨lost, fun hb => hlost (hending ▸ hb), ?_⟩, h.places_le, h.failures⟩
      show encodeIndexes s.caller.seen ++ pending sock ++ lost ++ s.net = _
      rw [hpending]
      exact hstream
  | @readFailed _ _ e msg sock hpc hx =>
      rw [hx] at hfetched
      obtain ⟨hmsg, hending, hpending⟩ := hfetched
      refine ⟨h.reach, h.ok.frame rfl rfl rfl rfl (fun _ hi => hi) (.inl rfl), h.blockNr_eq, h.seen,
        ?_, h.places_le, fun f hf => ?_⟩
      · rcases hpending with hpending | ⟨hopen, hpending⟩
        · refine ⟨lost, fun hb => hlost (hending ▸ hb), ?_⟩
          show encodeIndexes s.caller.seen ++ pending sock ++ lost ++ s.net = _
          rw [hpending]
          exact hstream
        · -- The call has read part of an index in front of the end.
          refine ⟨pending s.caller.t.sock ++ lost, fun hb => absurd (hending ▸ hb) hopen, ?_⟩
          show encodeIndexes s.caller.seen ++ pending sock ++ _ ++ s.net = _
          rw [hpending, ← hstream]
          simp
      · rcases List.mem_append.mp hf with hf | hf
        · exact h.failures f hf
        · rw [List.mem_singleton.mp hf]
          exact hmsg

/-- Every step of the two sides keeps the invariant. -/
theorem Inv.step {c : ConnId} {s s' : State k} {l : Label k} (h : Inv c s)
    (hk : k.numBlocks < 2 ^ 31) (hstep : step c s l = some s') : Inv c s' := by
  cases step_cases hstep with
  | daemon hl hd => exact h.daemon hl hd
  | deliver hback hpc hd => exact h.deliver hk hback hpc hd
  | @arrive n => exact h.arrive n
  | stop hseg => exact h.stop hseg
  | @call call _ hcaller =>
      have hm := h.ok.step_cases hcaller
      cases call with
      | read timeout polls =>
          have hread := h.read hk hm
          simpa [outgoing] using hread
      | _ => exact h.act nofun hm

/-- The invariant holds in every state of a session, by induction on the run. -/
theorem inv_of_reachable {c : ConnId} {t : T} (hk : k.numBlocks < 2 ^ 31) (ht : t.Mapped)
    (hnr : t.conn.blockNr = k.numBlocks) (hcounts : ∀ i, t.blockCounts i = 0)
    (hsock : pending t.sock = []) {s : State k} (h : (system k c t).Reachable s) : Inv c s :=
  h.invariant (inv_init c ht hnr hcounts hsock) fun _ _ _ _ hs hstep => hs.step hk hstep

/-! ### No rejection -/

/-- The daemon finds nothing to object to. -/
theorem Inv.not_rejects {c : ConnId} {s : State k} (h : Inv c s) (hk : k.numBlocks < 2 ^ 31)
    (l : Label k) : ¬ Rejects c s l := by
  intro hl
  unfold Rejects at hl
  split at hl
  · obtain ⟨w, ws, i, hback, hinvalid⟩ := hl
    rw [h.classify_back hk (hback ▸ List.mem_cons_self ..)] at hinvalid
    cases hinvalid
  · obtain ⟨-, -, i, q, hq, hout⟩ := hl
    -- A return in `oldBlocks` is a place of its block.
    have hplace : 0 < places c s i := by
      obtain ⟨hbuf, -⟩ := Chan.recv_eq_got hq
      simp only [places, Conn.returning, hbuf, List.count_cons_self]
      omega
    obtain ⟨-, b, rfl, hb⟩ := h.index hplace
    rw [hout b.isLt] at hb
    cases hb
  · exact hl

/-- The C client of a well-behaved program and the daemon never reject each other: in no run does
`testimony_get_block` fail on the index it was sent or on the count of its block, no return call
fails a check, and the daemon meets neither an invalid index nor a return of a block that is not
outstanding. `rxRing` is the kernel's answer to `PACKET_RX_RING` for a block size and a number of
blocks. The daemon's ring exists, so the kernel has taken its numbers. -/
theorem never_reject (rxRing : UInt32 → UInt32 → Bool)
    (hkernel : ∀ size nr, rxRing size nr = true → 0 < size.toInt32 ∧ 0 < nr.toInt32)
    (c : ConnId) (t : T) (ht : t.Mapped) (hnr : t.conn.blockNr = k.numBlocks)
    (hring : rxRing (UInt32.ofNat t.conn.blockSize) (UInt32.ofNat k.numBlocks) = true)
    (hcounts : ∀ i, t.blockCounts i = 0) (hsock : pending t.sock = [])
    {s : State k} (h : (system k c t).Reachable s) :
    (∀ f ∈ s.caller.failures, ¬ f.Rejection) ∧ ∀ l, ¬ Rejects c s l := by
  have hk : k.numBlocks < 2 ^ 31 := by
    have hpos := (toInt32_pos.mp (hkernel _ _ hring).2).2
    rwa [UInt32.toNat_ofNat_of_lt' (hnr ▸ ht.blockNr_lt)] at hpos
  have hinv := inv_of_reachable hk ht hnr hcounts hsock h
  exact ⟨hinv.failures, hinv.not_rejects hk⟩

/-- The kernel takes rings of whole pages, up to the number of blocks one allocation has room to
describe. -/
def pagedRing (size nr : UInt32) : Bool :=
  decide (0 < size.toInt32 ∧ 0 < nr.toInt32 ∧ size.toNat % 4096 = 0 ∧ nr.toNat * 8 ≤ 131072)

/-- A client joins, and the index of block `b` is written to it. -/
def joinRun (b : k.Index) : List (Label k) :=
  (.run .newConn :: deliverRun b 0).map .daemon

/-- The program has taken the block, with two packets in it. -/
def heldRun (b : k.Index) : List (Label k) :=
  joinRun b ++ [.arrive 4, .call (.read (-1) []), .call (.claim 2)]

/-- A block goes to the client in two pieces, comes back packet by packet, and is accepted. -/
theorem never_reject_roundtrip : ∃ s : State ⟨2, by decide⟩,
    (system ⟨2, by decide⟩ 0 (T.onRing 2 [])).Reachable s ∧ s.caller.given = [0] ∧
    s.caller.failures = [] ∧ (s.daemon.conn 0).pc = .unref 0 .select ∧
    (∀ f ∈ s.caller.failures, ¬ f.Rejection) ∧ ∀ l, ¬ Rejects 0 s l := by
  have hrun : (((system ⟨2, by decide⟩ 0 (T.onRing 2 [])).exec
      (system ⟨2, by decide⟩ 0 (T.onRing 2 [])).init
      (joinRun 0 ++ [.arrive 3, .stop .eintr, .arrive 1, .call (.read (-1) []),
        .call (.claim 2), .call (.returnPackets 0 1), .call (.returnPackets 0 1),
        .call (.reset 0 2), .call (.send 0 none), .deliver, .daemon (.reads 0 .eof),
        .daemon (.conn 0 .oldBlock)])).map fun s =>
      (s.caller.given, s.caller.failures, (s.daemon.conn 0).pc)) =
      some ([0], [], .unref 0 .select) := by decide +kernel
  obtain ⟨s, hexec, heq⟩ := Option.map_eq_some_iff.mp hrun
  simp only [Prod.mk.injEq] at heq
  have hreach := System.reachable_of_exec hexec
  have hinit := T.initiated_onRing (show 2 < 2 ^ 32 by decide) []
  exact ⟨s, hreach, heq.1, heq.2.1, heq.2.2,
    never_reject pagedRing (fun _ _ h => ⟨(of_decide_eq_true h).1, (of_decide_eq_true h).2.1⟩) 0
      (T.onRing 2 []) hinit.mapped hinit.blockNr_eq (by decide) hinit.counts (by decide) hreach⟩

end Testimony.Session
