import Testimony.Proofs.Client.Caller
import Testimony.Proofs.GoClient.Block

/-!
# `Testimony.Proofs.Stream`: the two clients decode the same stream

After the handshake the server sends block indexes, and may send TLVs in between.
`decode_agrees`: however the stream is cut, `testimony_get_block` and `Conn.Block` both return
its block indexes in order. The C client is driven by a program that also returns blocks
(`Caller`), because `testimony_get_block` refuses an index whose block has not been returned.

`top_index_lost` is why the indexes have to stay below `2 ^ 31`.
-/

set_option autoImplicit false

namespace Testimony.Client

open Lib Source Wire

/-- The block is the server's: the program does not have it, and its index has been sent. -/
def Caller.Returned (c : Caller) (i : UInt32) : Prop :=
  c.held i.toNat = none ∧ i.toNat ∉ c.resets ∧ i ∉ c.sends

/-- Whether a block is returned can be seen from the holds and the resets. -/
instance (c : Caller) (i : UInt32) : Decidable (c.Returned i) := by
  unfold Caller.Returned
  infer_instance

/-- An index comes again only after the program has returned its block. -/
def Reappears (msgs : List Msg) (c : Caller) : Call → Prop
  | .read _ _ =>
      match (indexes msgs)[c.given.length]? with
      | some x => c.Returned x
      | none => True
  | _ => True

/-- Only a read has to be looked at. -/
instance (msgs : List Msg) (c : Caller) (call : Call) : Decidable (Reappears msgs c call) := by
  unfold Reappears
  split
  · split <;> infer_instance
  · infer_instance

/-- The client after `testimony_init` on a ring of `numBlocks` blocks. -/
structure T.Initiated (t : T) (numBlocks : Nat) : Prop where
  sockFd_ne : t.sockFd ≠ 0
  ring_ne : t.ring ≠ 0
  mapped : t.Mapped
  blockNr_eq : t.conn.blockNr = numBlocks
  counts : ∀ i, t.blockCounts i = 0

/-- The index between the loop of `testimony_get_block` and the check of its count. -/
def GetPc.claimed : GetPc → List UInt32
  | .idle => []
  | .claim x => [x]

/-- The failures that have nothing to do with the messages: `poll` and `send` failed, or the
stream ended with every index read. -/
def Failure.Outside (done : Prop) : Failure → Prop
  | .get _ .poll | .ret _ .send => True
  | .get _ .recvIndex => done
  | _ => False

/-- A weaker condition allows more failures. -/
theorem Failure.Outside.imp {p q : Prop} (hpq : p → q) {f : Failure} (h : f.Outside p) :
    f.Outside q := by
  cases f with
  | get e msg => cases msg <;> first | exact h | exact hpq h
  | ret e msg => cases msg <;> exact h

/-- The indexes the program has read. -/
def Caller.seen (c : Caller) : List UInt32 := c.given ++ c.getter.claimed

/-- The program has been given the first indexes of the stream, and the others are still to be
read. -/
structure Caller.Streamed (numBlocks : Nat) (msgs : List Msg) (c : Caller) : Prop where
  ok : c.Ok
  sockFd_ne : c.t.sockFd ≠ 0
  ring_ne : c.t.ring ≠ 0
  blockNr_eq : c.t.conn.blockNr = numBlocks
  rest : ∃ rest, rest <:+ msgs ∧ pending c.t.sock = encodeMsgs rest ∧
    indexes msgs = c.seen ++ indexes rest
  failures : ∀ f ∈ c.failures, f.Outside (c.seen = indexes msgs)

/-- A program that has read nothing has the whole stream before it. -/
theorem Caller.Streamed.start {numBlocks : Nat} {msgs : List Msg} {t : T}
    (h : t.Initiated numBlocks) (ht : pending t.sock = encodeMsgs msgs) :
    (Caller.start t).Streamed numBlocks msgs where
  ok := .start h.mapped h.counts
  sockFd_ne := h.sockFd_ne
  ring_ne := h.ring_ne
  blockNr_eq := h.blockNr_eq
  rest := ⟨msgs, List.suffix_refl _, ht, rfl⟩
  failures := nofun

/-- A step away from the socket. -/
theorem Caller.Streamed.frame {numBlocks : Nat} {msgs : List Msg} {c c' : Caller}
    (h : c.Streamed numBlocks msgs) (hok : c'.Ok) (hfd : c'.t.sockFd = c.t.sockFd)
    (hring : c'.t.ring = c.t.ring) (hconn : c'.t.conn = c.t.conn) (hsock : c'.t.sock = c.t.sock)
    (hseen : c'.seen = c.seen)
    (hfailures : ∀ f ∈ c'.failures, f ∈ c.failures ∨ f.Outside False) :
    c'.Streamed numBlocks msgs where
  ok := hok
  sockFd_ne := hfd ▸ h.sockFd_ne
  ring_ne := hring ▸ h.ring_ne
  blockNr_eq := hconn ▸ h.blockNr_eq
  rest := by rw [hsock, hseen]; exact h.rest
  failures := by
    intro f hf
    rw [hseen]
    rcases hfailures f hf with hold | hnew
    · exact h.failures f hold
    · exact hnew.imp False.elim

section
variable {numBlocks : Nat} {msgs : List Msg}
  (hmsgs : ∀ x, .block x ∈ msgs → x.toNat < numBlocks ∧ x.toNat < 2 ^ 31)
include hmsgs

/-- What a call of `testimony_get_block` reads, and what is left. -/
theorem Caller.Streamed.read {c : Caller} (h : c.Streamed numBlocks msgs) (timeout : Int)
    (polls : List Poll) : ∃ rest, rest <:+ msgs ∧ pending c.t.sock = encodeMsgs rest ∧
      indexes msgs = c.seen ++ indexes rest ∧
      Got timeout rest [] (ending c.t.sock) (readIndex c.t timeout polls) := by
  obtain ⟨rest, hsuffix, hpending, hindexes⟩ := h.rest
  exact ⟨rest, hsuffix, hpending, hindexes, readIndex_cases h.sockFd_ne h.ring_ne timeout polls
    (show [].length < 4 by decide) (fun x hx => (hmsgs x (hsuffix.mem hx)).2)
    (by rw [hpending, List.append_nil])⟩

/-- The index read next is free, because it comes again only after its block was returned. -/
theorem Caller.Streamed.free {c : Caller} (h : c.Streamed numBlocks msgs) {x : UInt32}
    {xs : List UInt32} (hpc : c.getter = .idle) (hx : indexes msgs = c.seen ++ x :: xs)
    (hreturned : ∀ y, (indexes msgs)[c.given.length]? = some y → c.Returned y) :
    c.Free x.toNat := by
  have hseen : c.seen = c.given := by rw [Caller.seen, hpc, GetPc.claimed, List.append_nil]
  have hnext : (indexes msgs)[c.given.length]? = some x := by rw [hx, hseen]; simp
  obtain ⟨hheld, hresets, -⟩ := hreturned x hnext
  have hmem : x ∈ indexes msgs := by rw [hx]; simp
  exact ⟨h.blockNr_eq ▸ (hmsgs x (block_mem_of_index hmem)).1, hheld, hresets⟩

/-- Every step of the program keeps to the stream. -/
theorem Caller.Streamed.step {c c' : Caller} {call : Call} (h : c.Streamed numBlocks msgs)
    (hguard : Reappears msgs c call) (hstep : c.step call = some c') :
    c'.Streamed numBlocks msgs := by
  have hm := h.ok.step_cases hstep
  have hok : c'.Ok := by
    refine hm.ok h.ok ?_
    rintro timeout polls x sock rfl hpc hread
    obtain ⟨rest, -, -, hindexes, hgot⟩ := h.read hmsgs timeout polls
    rw [hread] at hgot
    cases hgot with
    | index hx hrest hpending hending =>
        refine h.free hmsgs hpc (hindexes.trans (by rw [hx])) fun y hy => ?_
        simp only [Reappears, hy] at hguard
        exact hguard
  -- What was seen does not change when the getter is idle before and after.
  have hidle : c.getter = .idle → c.seen = c.given := by
    intro hpc
    rw [Caller.seen, hpc, GetPc.claimed, List.append_nil]
  cases hm with
  | @index timeout polls x sock hpc hread =>
      obtain ⟨rest, hsuffix, -, hindexes, hgot⟩ := h.read hmsgs timeout polls
      rw [hread] at hgot
      cases hgot with
      | @index _ rest' _ hx hrest hpending hending =>
          have hseen :
              { c.setSock sock with getter := .claim x : Caller }.seen = c.seen ++ [x] := by
            rw [hidle hpc]
            rfl
          refine ⟨hok, h.sockFd_ne, h.ring_ne, h.blockNr_eq,
            ⟨rest', hrest.trans hsuffix, hpending.trans (List.append_nil _), ?_⟩, fun f hf => ?_⟩
          · rw [hseen, hindexes, hx]
            simp
          · -- There was an index left, so the stream had not ended.
            refine (h.failures f hf).imp fun hall => ?_
            rw [hall, hx] at hindexes
            simp at hindexes
  | @noIndex timeout polls sock hpc hread =>
      obtain ⟨rest, hsuffix, -, hindexes, hgot⟩ := h.read hmsgs timeout polls
      rw [hread] at hgot
      cases hgot with
      | @timedOut rest' _ _ hx hrest hpending hending =>
          exact ⟨hok, h.sockFd_ne, h.ring_ne, h.blockNr_eq,
            ⟨rest', hrest.trans hsuffix, hpending.trans (List.append_nil _), hx ▸ hindexes⟩,
            h.failures⟩
  | @readFailed timeout polls e msg sock hpc hread =>
      obtain ⟨rest, hsuffix, -, hindexes, hgot⟩ := h.read hmsgs timeout polls
      rw [hread] at hgot
      cases hgot with
      | @pollFailed rest' _ _ _ hx hrest hpending hending =>
          refine ⟨hok, h.sockFd_ne, h.ring_ne, h.blockNr_eq,
            ⟨rest', hrest.trans hsuffix, hpending.trans (List.append_nil _), hx ▸ hindexes⟩,
            fun f hf => ?_⟩
          rcases List.mem_append.mp hf with hf | hf
          · exact h.failures f hf
          · rw [List.mem_singleton.mp hf]
            trivial
      | ended hx he hpending hending =>
          rw [hx, List.append_nil] at hindexes
          refine ⟨hok, h.sockFd_ne, h.ring_ne, h.blockNr_eq,
            ⟨[], List.nil_suffix, hpending, by rw [hindexes]; exact (List.append_nil _).symm⟩,
            fun f hf => ?_⟩
          rcases List.mem_append.mp hf with hf | hf
          · exact h.failures f hf
          · rw [List.mem_singleton.mp hf]
            exact hindexes.symm
  | @claim x numPkts hpc =>
      refine h.frame hok rfl rfl rfl rfl ?_ (fun f hf => .inl hf)
      simp [Caller.seen, hpc, GetPc.claimed]
  | returnBlock hheld => exact h.frame hok rfl rfl rfl rfl rfl (fun f hf => .inl hf)
  | returnSome hheld hp => exact h.frame hok rfl rfl rfl rfl rfl (fun f hf => .inl hf)
  | returnLast hheld hp => exact h.frame hok rfl rfl rfl rfl rfl (fun f hf => .inl hf)
  | reset hi => exact h.frame hok rfl rfl rfl rfl rfl (fun f hf => .inl hf)
  | sent hx => exact h.frame hok rfl rfl rfl rfl rfl (fun f hf => .inl hf)
  | sendFailed hx =>
      refine h.frame hok rfl rfl rfl rfl rfl fun f hf => ?_
      rcases List.mem_append.mp hf with hf | hf
      · exact .inl hf
      · exact .inr (List.mem_singleton.mp hf ▸ trivial)

/-- In any run in which indexes come again only after their block was returned. -/
theorem streamed_of_reachable {t : T} (ht : t.Initiated numBlocks)
    (hsock : pending t.sock = encodeMsgs msgs) {c : Caller}
    (h : (callerSystem t).ReachableBy (Reappears msgs) c) : c.Streamed numBlocks msgs :=
  h.invariant (.start ht hsock) fun _ _ _ _ hs hguard hstep => hs.step hmsgs hguard hstep

/-- A call that may wait gets the next index. -/
theorem Caller.Streamed.get {c : Caller} (h : c.Streamed numBlocks msgs) (hpc : c.getter = .idle)
    {x : UInt32} (hx : (indexes msgs)[c.given.length]? = some x) (hreturned : c.Returned x)
    {timeout : Int} (htime : timeout < 0) (polls : List Poll) (numPkts : UInt32) {t : T} :
    ∃ c', (callerSystem t).exec c [.read timeout polls, .claim numPkts] = some c' ∧
      c'.given = c.given ++ [x] := by
  obtain ⟨rest, -, -, hindexes, hgot⟩ := h.read hmsgs timeout polls
  have hseen : c.seen = c.given := by rw [Caller.seen, hpc, GetPc.claimed, List.append_nil]
  -- The index is the first of those left to read.
  obtain ⟨xs, hxs⟩ : ∃ xs, indexes rest = x :: xs := by
    rw [hindexes, hseen, List.getElem?_append_right (Nat.le_refl _), Nat.sub_self] at hx
    cases hrest : indexes rest with
    | nil => rw [hrest] at hx; cases hx
    | cons y ys =>
        rw [hrest] at hx
        obtain rfl := Option.some.inj hx
        exact ⟨ys, rfl⟩
  have hfree : c.Free x.toNat := by
    refine h.free hmsgs hpc (hindexes.trans (by rw [hxs])) fun y hy => ?_
    rw [hx] at hy
    exact Option.some.inj hy ▸ hreturned
  generalize hread : readIndex c.t timeout polls = r at hgot
  cases hgot with
  | @index y rest' sock hy hrest hpending hending =>
      obtain ⟨rfl, -⟩ := List.cons.inj (hxs.symm.trans hy)
      have hclaim : claimBlock { c.t with sock := sock } x numPkts = (.ok _, _) :=
        claimBlock_ok (t := { c.t with sock := sock }) hfree.lt (h.ok.count_free hfree.held) numPkts
      simp only [System.exec, callerSystem, Caller.step, hpc, hread, Option.bind_some, hclaim]
      exact ⟨_, rfl, rfl⟩
  | timedOut htime' hx' hrest hpending hending => omega
  | pollFailed htime' hx' hrest hpending hending => omega
  | ended hx' he hpending hending =>
      rw [hxs] at hx'
      cases hx'
  | blocked hx' =>
      rcases hx' with htime' | hx'
      · omega
      · rw [hxs] at hx'
        cases hx'

end

/-! ### Agreement -/

/-- Both clients return exactly the block indexes of the stream, in order. The C client, in any
run of a program that returns its blocks, has been given the first of them, and no call has
failed on account of the messages; a call that may wait gets the next one. The Go client gets
them with as many calls, and no more than those. -/
theorem decode_agrees (numBlocks : Nat) (msgs : List Msg)
    (hmsgs : ∀ x, .block x ∈ msgs → x.toNat < numBlocks ∧ x.toNat < 2 ^ 31)
    (t : T) (ht : t.Initiated numBlocks) (hsock : pending t.sock = encodeMsgs msgs)
    (conn : GoClient.Conn) (hconn : conn.numBlocks = numBlocks)
    (segs : List Seg) (hsegs : pending segs = encodeMsgs msgs) :
    (∀ c, (callerSystem t).ReachableBy (Reappears msgs) c →
      c.given <+: indexes msgs ∧
      (∀ f ∈ c.failures, f.Outside (c.seen = indexes msgs)) ∧
      (∀ x, c.getter = .idle → (indexes msgs)[c.given.length]? = some x → c.Returned x →
        ∀ timeout < 0, ∀ polls numPkts, ∃ c',
          (callerSystem t).exec c [.read timeout polls, .claim numPkts] = some c' ∧
          c'.given = c.given ++ [x])) ∧
    (∀ n ≤ (indexes msgs).length, ∃ segs',
      conn.blocks n segs = .ok (((indexes msgs).take n).map UInt32.toNat) segs') ∧
    (∀ n > (indexes msgs).length, ∀ blocks segs', conn.blocks n segs ≠ .ok blocks segs') := by
  refine ⟨fun c hc => ?_, fun n hn => ?_, fun n hn blocks segs' => ?_⟩
  · have h := streamed_of_reachable hmsgs ht hsock hc
    refine ⟨?_, h.failures, fun x hpc hx hreturned timeout htime polls numPkts =>
      h.get hmsgs hpc hx hreturned htime polls numPkts⟩
    obtain ⟨rest, -, -, hindexes⟩ := h.rest
    exact ⟨c.getter.claimed ++ indexes rest, by rw [hindexes, Caller.seen, List.append_assoc]⟩
  · obtain ⟨segs', -, heq, -⟩ := GoClient.blocks_ok n msgs segs (fun x hx => (hmsgs x hx).2)
      (fun x hx => by rw [hconn]; exact_mod_cast (hmsgs x hx).1) hn hsegs
    exact ⟨segs', heq⟩
  · obtain ⟨e, segs'', heq⟩ := GoClient.blocks_short n msgs segs (fun x hx => (hmsgs x hx).2)
      (fun x hx => by rw [hconn]; exact_mod_cast (hmsgs x hx).1) hn hsegs
    rw [heq]
    nofun

/-- `T.onRing` is a connection as `testimony_init` leaves it behind. -/
theorem T.initiated_onRing {numBlocks : Nat} (h : numBlocks < 2 ^ 32) (segs : List Seg) :
    (T.onRing numBlocks segs).Initiated numBlocks where
  sockFd_ne := show 3 ≠ 0 by decide
  ring_ne := show 4096 ≠ 0 by decide
  mapped := T.mapped_onRing h segs
  blockNr_eq := rfl
  counts := fun _ => rfl

/-- A type that no client knows. -/
theorem typeOf_unknown : typeOf 0x8010 = typeServerToClient := by decide

/-- Two blocks, one of them twice, with a TLV in between. -/
def mixed : List Msg :=
  [.block 2, .tlv ⟨0x8010, [1, 2, 3, 4, 5], typeOf_unknown, by decide⟩, .block 0, .block 2]

/-- The stream of `mixed`, cut inside the first index and inside the TLV. -/
def mixedCut : List Seg :=
  Seg.unread ((encodeMsgs mixed).take 3)
    (.eintr :: Seg.unread (((encodeMsgs mixed).drop 3).take 6)
      (Seg.unread ((encodeMsgs mixed).drop 9) []))

/-- Indexes and messages in turn, in pieces that cut them: both clients return the same three
blocks. -/
theorem decode_agrees_mixed :
    (∃ c, (callerSystem (.onRing 4 mixedCut)).ReachableBy (Reappears mixed) c ∧
      c.given = [2, 0, 2] ∧ c.given <+: indexes mixed) ∧
    ∃ segs', (⟨4, 4096, 1⟩ : GoClient.Conn).blocks 3 mixedCut = .ok [2, 0, 2] segs' := by
  have hmsgs : ∀ x, Msg.block x ∈ mixed → x.toNat < 4 ∧ x.toNat < 2 ^ 31 := by
    intro x hx
    simp only [mixed, List.mem_cons, Msg.block.injEq, reduceCtorEq, List.not_mem_nil, or_false,
      false_or] at hx
    rcases hx with rfl | rfl | rfl <;> decide
  have hagree := decode_agrees 4 mixed hmsgs (.onRing 4 mixedCut)
    (T.initiated_onRing (by decide) _) (by decide) ⟨4, 4096, 1⟩ rfl mixedCut (by decide)
  have hrun : (((callerSystem (.onRing 4 mixedCut)).execBy (Reappears mixed)
      (.start (.onRing 4 mixedCut))
      [.read (-1) [], .claim 7, .read 5 [.eintr, .ready], .claim 0, .returnPackets 2 3,
        .returnPackets 2 4, .reset 2 7, .send 2 none, .read (-1) [], .claim 9]).map
      Caller.given) = some [2, 0, 2] := by decide +kernel
  obtain ⟨c, hexec, hgiven⟩ := Option.map_eq_some_iff.mp hrun
  have hreach := System.ReachableBy.init.exec _ hexec
  exact ⟨⟨c, hreach, hgiven, (hagree.1 c hreach).1⟩, hagree.2.1 3 (by decide)⟩

/-- With the top bit set, an index is taken for the head of a TLV: the C client skips it and
waits for more, and the Go client refuses it. -/
theorem top_index_lost :
    let msgs : List Msg := [.block 0x80000000]
    let segs := Seg.unread (encodeMsgs msgs) []
    (T.onRing (2 ^ 31 + 1) segs).Initiated (2 ^ 31 + 1) ∧
    (∀ x, Msg.block x ∈ msgs → x.toNat < 2 ^ 31 + 1) ∧ indexes msgs = [0x80000000] ∧
    (∀ polls, (Caller.start (.onRing (2 ^ 31 + 1) segs)).step (.read (-1) polls) = none) ∧
    (⟨2 ^ 31 + 1, 4096, 1⟩ : GoClient.Conn).block segs =
      .error (.fail (.notServerToClient 0x8000)) [] := by
  refine ⟨T.initiated_onRing (by decide) _, ?_, rfl, fun polls => rfl, rfl⟩
  intro x hx
  obtain rfl : x = 0x80000000 := by simpa using hx
  decide

end Testimony.Client
