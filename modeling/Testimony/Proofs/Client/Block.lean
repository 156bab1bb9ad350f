import Testimony.Client.Block
import Testimony.Proofs.Client.Recv

/-!
# `Testimony.Proofs.Client.Block`: what the block functions do

`getLoop_cases`: on a stream of messages, the loop of `testimony_get_block` finds the first
block index and skips the TLVs before it, whatever their length. If it gives up earlier it has
skipped only TLVs.

`claimBlock_ok`, `returnBlock_ok`, `returnPackets_ok`: the calls succeed when the count of the
block is what the caller thinks it is. `testimonyBlockIndex_block` says that the way back from
an address to an index is right.
-/

set_option autoImplicit false

namespace Testimony.Client

open Lib Lib.BigEndian Source Wire

/-! ### `testimony_get_block` -/

/-- How a wait for the socket ends. It reads nothing. -/
theorem pollLoop_cases (polls : List Poll) (t : Sock) :
    (∃ polls', pollLoop polls t = .ok (some polls') t) ∨ pollLoop polls t = .ok none t ∨
    (∃ e, pollLoop polls t = .error (.fail (.sys e) .poll) t) ∨
    pollLoop polls t = .error .blocked t := by
  induction polls with
  | nil => exact .inr (.inr (.inr rfl))
  | cons answer polls ih =>
      cases answer with
      | eintr => exact ih
      | error e => exact .inr (.inr (.inl ⟨e, rfl⟩))
      | timeout => exact .inr (.inl rfl)
      | ready => exact .inl ⟨polls, rfl⟩

/-- Only a call with a timeout can end in the wait. -/
theorem waitReadable_cases (timeout : Int) (polls : List Poll) (t : Sock) :
    (∃ polls', waitReadable timeout polls t = .ok (some polls') t) ∨
    0 ≤ timeout ∧ (waitReadable timeout polls t = .ok none t ∨
      (∃ e, waitReadable timeout polls t = .error (.fail (.sys e) .poll) t) ∨
      waitReadable timeout polls t = .error .blocked t) := by
  by_cases h : timeout ≥ 0 ∧ t.buf = []
  · have heq : waitReadable timeout polls t = pollLoop polls t := by
      simp only [waitReadable, bind, EStateM.bind, get_apply, h,
        if_true, and_self]
    rw [heq]
    rcases pollLoop_cases polls t with hsome | hother
    · exact .inl hsome
    · exact .inr ⟨h.1, hother⟩
  · refine .inl ⟨polls, ?_⟩
    simp only [waitReadable, bind, EStateM.bind, get_apply, h,
      if_false]
    rfl

/-- How the loop of `testimony_get_block` ends on the messages `msgs`, with `part` behind them
and `e` behind that. -/
inductive Got (timeout : Int) (msgs : List Msg) (part : List UInt8) (e : End) :
    EStateM.Result (Stop GetMsg) Sock (Option UInt32) → Prop
  | index {x : UInt32} {rest : List Msg} {t : Sock} (hx : indexes msgs = x :: indexes rest)
      (hrest : rest <:+ msgs) (hpending : pending t = encodeMsgs rest ++ part)
      (hending : ending t = e) : Got timeout msgs part e (.ok (some x) t)
  | timedOut {rest : List Msg} {t : Sock} (htime : 0 ≤ timeout)
      (hx : indexes rest = indexes msgs) (hrest : rest <:+ msgs)
      (hpending : pending t = encodeMsgs rest ++ part) (hending : ending t = e) :
      Got timeout msgs part e (.ok none t)
  | pollFailed {rest : List Msg} {t : Sock} {errno : Nat} (htime : 0 ≤ timeout)
      (hx : indexes rest = indexes msgs) (hrest : rest <:+ msgs)
      (hpending : pending t = encodeMsgs rest ++ part) (hending : ending t = e) :
      Got timeout msgs part e (.error (.fail (.sys errno) .poll) t)
  | ended {t : Sock} {errno : Errno} (hx : indexes msgs = []) (he : e ≠ .blocked)
      (hpending : pending t = []) (hending : ending t = e) :
      Got timeout msgs part e (.error (.fail errno .recvIndex) t)
  | blocked {t : Sock} (hx : 0 ≤ timeout ∨ indexes msgs = []) :
      Got timeout msgs part e (.error .blocked t)

/-- A skipped TLV makes no difference. -/
theorem Got.skip {timeout : Int} {msgs : List Msg} {part : List UInt8} {e : End} {u : Tlv}
    {r : EStateM.Result (Stop GetMsg) Sock (Option UInt32)} (h : Got timeout msgs part e r) :
    Got timeout (.tlv u :: msgs) part e r := by
  have hindexes : indexes (.tlv u :: msgs) = indexes msgs := rfl
  cases h with
  | index hx hrest hpending hending =>
      exact .index (hindexes ▸ hx) (hrest.trans (List.suffix_cons _ _)) hpending hending
  | timedOut htime hx hrest hpending hending =>
      exact .timedOut htime (hindexes ▸ hx) (hrest.trans (List.suffix_cons _ _)) hpending hending
  | pollFailed htime hx hrest hpending hending =>
      exact .pollFailed htime (hindexes ▸ hx) (hrest.trans (List.suffix_cons _ _)) hpending hending
  | ended hx he hpending hending => exact .ended (hindexes ▸ hx) he hpending hending
  | blocked hx => exact .blocked (hindexes ▸ hx)

/-- What a round does with a word. -/
def getRound (timeout : Int) (rounds : Nat) (polls : List Poll) (word : UInt32) :
    EStateM (Stop GetMsg) Sock (Option UInt32) :=
  if protocolType word = typeBlockIndex.toUInt32 then pure (some word)
  else terr .recvIndex (discardBytes (protocolLength word).toNat) >>= fun _ =>
    getLoop timeout rounds polls

/-- A round whose wait ends well reads a word. -/
theorem getLoop_ready {timeout : Int} {rounds : Nat} {polls polls' : List Poll} {t : Sock}
    (h : waitReadable timeout polls t = .ok (some polls') t) :
    getLoop timeout (rounds + 1) polls t =
      (terr .recvIndex recvBe32 >>= getRound timeout rounds polls') t := by
  rw [getLoop, bind_ok h]
  rfl

/-- The head of a TLV is not an index. -/
theorem getRound_tlv (timeout : Int) (rounds : Nat) (polls : List Poll) (u : Tlv) :
    getRound timeout rounds polls (toTL u.typ u.val.length) =
      (terr .recvIndex (discardBytes u.val.length) >>= fun _ => getLoop timeout rounds polls) := by
  have htyp : protocolType (toTL u.typ u.val.length) ≠ typeBlockIndex.toUInt32 := by
    rw [protocolType_toTL u.two_pow_le u.short, Ne, UInt16.toUInt32_inj]
    intro h
    have hu := u.two_pow_le
    rw [h] at hu
    exact absurd hu (by decide)
  rw [getRound, if_neg htyp, toNat_protocolLength_toTL u.two_pow_le u.short]

/-- A round whose wait does not end well has read nothing. -/
theorem Got.of_wait {timeout : Int} {msgs : List Msg} {part : List UInt8} {rounds : Nat}
    {polls : List Poll} {t : Sock} (ht : pending t = encodeMsgs msgs ++ part)
    (htime : 0 ≤ timeout) (hw : waitReadable timeout polls t = .ok none t ∨
      (∃ e, waitReadable timeout polls t = .error (.fail (.sys e) .poll) t) ∨
      waitReadable timeout polls t = .error .blocked t) :
    Got timeout msgs part (ending t) (getLoop timeout (rounds + 1) polls t) := by
  rcases hw with hw | ⟨e, hw⟩ | hw
  · rw [getLoop, bind_ok hw]
    exact .timedOut htime rfl (List.suffix_refl _) ht rfl
  · rw [getLoop, bind_error hw]
    exact .pollFailed htime rfl (List.suffix_refl _) ht rfl
  · rw [getLoop, bind_error hw]
    exact .blocked (.inl htime)

/-- The loop of `testimony_get_block` on a stream of messages. -/
theorem getLoop_cases (timeout : Int) {part : List UInt8} (hpart : part.length < 4)
    (msgs : List Msg) : ∀ (rounds : Nat) (polls : List Poll) (t : Sock),
    (∀ x, .block x ∈ msgs → x.toNat < 2 ^ 31) → msgs.length < rounds →
    pending t = encodeMsgs msgs ++ part →
    Got timeout msgs part (ending t) (getLoop timeout rounds polls t) := by
  induction msgs with
  | nil =>
      intro rounds polls t _ hrounds ht
      obtain ⟨rounds, rfl⟩ := Nat.exists_eq_succ_of_ne_zero (Nat.ne_of_gt hrounds)
      rcases waitReadable_cases timeout polls t with ⟨polls', hw⟩ | ⟨htime, hw⟩
      · obtain ⟨stop, t', heq, hstop, hpending, hending⟩ :=
          halts_terr GetMsg.recvIndex (halts_recvBe32 hpart) t ht
        rw [getLoop_ready hw, bind_error heq]
        cases stop with
        | fail errno msg =>
            obtain rfl := eq_of_terr_fail heq
            exact .ended rfl (fun hb => nomatch hstop hb) hpending hending
        | blocked => exact .blocked (.inr rfl)
      · exact Got.of_wait ht htime hw
  | cons m msgs ih =>
      intro rounds polls t hmsgs hrounds ht
      obtain ⟨rounds, rfl⟩ :=
        Nat.exists_eq_succ_of_ne_zero (Nat.ne_of_gt (Nat.zero_lt_of_lt hrounds))
      rcases waitReadable_cases timeout polls t with ⟨polls', hw⟩ | ⟨htime, hw⟩
      · rw [getLoop_ready hw]
        rw [encodeMsgs_cons, List.append_assoc] at ht
        cases m with
        | block x =>
            obtain ⟨t₁, heq, hpending, hending⟩ :=
              reads_terr GetMsg.recvIndex (reads_recvBe32 x) t _ ht
            rw [bind_ok heq, getRound,
              if_pos (protocolType_of_lt (hmsgs x (List.mem_cons_self ..)))]
            exact .index rfl (List.suffix_cons _ _) hpending hending
        | tlv u =>
            -- The head and then the value, and the loop starts again behind them.
            have hsteps : Steps (terr GetMsg.recvIndex recvBe32 >>= getRound timeout rounds polls')
                u.bytes (getLoop timeout rounds polls') := by
              refine (reads_terr _ (reads_recvBe32 _)).steps.trans ?_
              rw [getRound_tlv]
              exact (reads_terr _ (reads_discardBytes u.val)).steps
            obtain ⟨t₁, heq, hpending, hending⟩ := hsteps t _ ht
            rw [heq, ← hending]
            exact (ih rounds polls' t₁ (fun x hx => hmsgs x (List.mem_cons_of_mem _ hx))
              (Nat.lt_of_succ_lt_succ hrounds) hpending).skip
      · exact Got.of_wait ht htime hw

/-- `testimony_get_block` up to its index. -/
theorem readIndex_cases {t : T} (hfd : t.sockFd ≠ 0) (hring : t.ring ≠ 0) (timeout : Int)
    (polls : List Poll) {msgs : List Msg} {part : List UInt8} (hpart : part.length < 4)
    (hmsgs : ∀ x, .block x ∈ msgs → x.toNat < 2 ^ 31)
    (ht : pending t.sock = encodeMsgs msgs ++ part) :
    Got timeout msgs part (ending t.sock) (readIndex t timeout polls) := by
  rw [readIndex, if_neg (by simp [hfd, hring])]
  refine getLoop_cases timeout hpart msgs _ polls t.sock hmsgs ?_ ht
  have hlen := length_le_encodeMsgs msgs
  rw [ht, List.length_append]
  omega

/-! ### The counts -/

/-- The ring is mapped where it fits, and the index of a block is a 32-bit number. -/
structure T.Mapped (t : T) : Prop where
  blockSize_pos : 0 < t.conn.blockSize
  fits : t.ring + t.conn.blockSize * t.conn.blockNr ≤ 2 ^ 64
  blockNr_lt : t.conn.blockNr < 2 ^ 32

/-- An index of the ring survives the way through a `uint32_t`. -/
theorem T.Mapped.toNat_ofNat {t : T} (h : t.Mapped) {i : Nat} (hi : i < t.conn.blockNr) :
    (UInt32.ofNat i).toNat = i :=
  UInt32.toNat_ofNat_of_lt' (Nat.lt_trans hi h.blockNr_lt)

/-- A client on a ring of `numBlocks` pages, with `segs` to read. -/
def T.onRing (numBlocks : Nat) (segs : List Seg) : T where
  sockFd := 3
  sock := ⟨[], segs⟩
  conn := ⟨1, 4096, numBlocks, 0⟩
  ring := 4096
  blockCounts := fun _ => 0

/-- `T.onRing` has its ring mapped. -/
theorem T.mapped_onRing {numBlocks : Nat} (h : numBlocks < 2 ^ 32) (segs : List Seg) :
    (T.onRing numBlocks segs).Mapped where
  blockSize_pos := show 0 < 4096 by decide
  fits := show 4096 + 4096 * numBlocks ≤ 2 ^ 64 by omega
  blockNr_lt := h

/-- A pointer into the mapping belongs to the block it points into. -/
theorem testimonyBlockIndex_inside {t : T} (h : t.Mapped) {p : Nat} (hge : t.ring ≤ p)
    (hlt : p < t.ring + t.conn.blockSize * t.conn.blockNr) :
    testimonyBlockIndex t p = UInt32.ofNat ((p - t.ring) / t.conn.blockSize) ∧
      (p - t.ring) / t.conn.blockSize < t.conn.blockNr := by
  have hfits := h.fits
  have hdiff : (p + (2 ^ 64 - t.ring)) % 2 ^ 64 = p - t.ring := by omega
  have hquot : (p - t.ring) / t.conn.blockSize < t.conn.blockNr :=
    Nat.div_lt_of_lt_mul (by omega)
  refine ⟨?_, hquot⟩
  simp only [testimonyBlockIndex, hdiff]
  rw [if_neg (Nat.not_le.mpr hquot)]

/-- Any other pointer is refused. -/
theorem testimonyBlockIndex_outside {t : T} (h : t.Mapped) {p : Nat} (hp : p < 2 ^ 64)
    (hout : ¬ (t.ring ≤ p ∧ p < t.ring + t.conn.blockSize * t.conn.blockNr)) :
    testimonyBlockIndex t p = kInvalidBlockIndex := by
  have hfits := h.fits
  -- Below the ring the difference wraps around to at least the length of the mapping.
  have hfar : t.conn.blockSize * t.conn.blockNr ≤ (p + (2 ^ 64 - t.ring)) % 2 ^ 64 := by omega
  simp only [testimonyBlockIndex]
  rw [if_pos ((Nat.le_div_iff_mul_le h.blockSize_pos).mpr (by rwa [Nat.mul_comm]))]

/-- The index of a block is never taken for the sentinel. -/
theorem T.Mapped.ofNat_ne_invalid {t : T} (h : t.Mapped) {i : Nat} (hi : i < t.conn.blockNr) :
    UInt32.ofNat i ≠ kInvalidBlockIndex := by
  intro heq
  have hnr := h.blockNr_lt
  have hnat := h.toNat_ofNat hi
  rw [heq] at hnat
  have hmax : kInvalidBlockIndex.toNat = 2 ^ 32 - 1 := by decide
  omega

/-- The way from an address back to the index. -/
theorem testimonyBlockIndex_block {t : T} (h : t.Mapped) {i : Nat} (hi : i < t.conn.blockNr) :
    testimonyBlockIndex t (t.block i) = UInt32.ofNat i ∧ UInt32.ofNat i ≠ kInvalidBlockIndex := by
  have hlt : t.conn.blockSize * i < t.conn.blockSize * t.conn.blockNr :=
    Nat.mul_lt_mul_of_pos_left hi h.blockSize_pos
  refine ⟨?_, h.ofNat_ne_invalid hi⟩
  unfold T.block
  rw [(testimonyBlockIndex_inside h (Nat.le_add_right _ _) (Nat.add_lt_add_left hlt _)).1,
    Nat.add_sub_cancel_left, Nat.mul_div_cancel_left i h.blockSize_pos]

/-- Getting a block whose count is zero. -/
theorem claimBlock_ok {t : T} {x : UInt32} (hx : x.toNat < t.conn.blockNr)
    (hcount : t.blockCounts x.toNat = 0) (numPkts : UInt32) :
    claimBlock t x numPkts = (.ok (t.block x.toNat),
      { t with blockCounts := Function.update t.blockCounts x.toNat numPkts }) := by
  simp only [claimBlock]
  rw [if_neg (by omega), if_pos hcount]

/-- A block that was given out is at its address, and its packets are counted. -/
theorem of_claimBlock_ok {t t' : T} {x numPkts : UInt32} {p : Nat}
    (h : claimBlock t x numPkts = (.ok p, t')) : x.toNat < t.conn.blockNr ∧
      p = t.block x.toNat ∧
      t' = { t with blockCounts := Function.update t.blockCounts x.toNat numPkts } := by
  simp only [claimBlock] at h
  split at h
  · cases h
  · rename_i hlt
    split at h
    · cases h
      exact ⟨Nat.lt_of_not_le hlt, rfl, rfl⟩
    · cases h

/-- `testimony_block_index` is the inverse of the addressing of blocks. A pointer into the mapping
gets the index of the block it points into, any other pointer gets the sentinel, and the pointer
that `testimony_get_block` returns for an index gets that index. -/
theorem block_index_exact (t : T) (hsize : 1 ≤ t.conn.blockSize ∧ t.conn.blockSize < 2 ^ 32)
    (hnr : 1 ≤ t.conn.blockNr ∧ t.conn.blockNr < 2 ^ 32)
    (hfits : t.ring + t.conn.blockSize * t.conn.blockNr ≤ 2 ^ 64) :
    (∀ p < 2 ^ 64,
      (t.ring ≤ p ∧ p < t.ring + t.conn.blockSize * t.conn.blockNr →
        ∃ i < t.conn.blockNr, (testimonyBlockIndex t p).toNat = i ∧
          testimonyBlockIndex t p ≠ kInvalidBlockIndex ∧
          t.ring + t.conn.blockSize * i ≤ p ∧ p < t.ring + t.conn.blockSize * (i + 1)) ∧
      (¬ (t.ring ≤ p ∧ p < t.ring + t.conn.blockSize * t.conn.blockNr) →
        testimonyBlockIndex t p = kInvalidBlockIndex)) ∧
    ∀ (x numPkts : UInt32) (p : Nat) (t' : T), claimBlock t x numPkts = (.ok p, t') →
      testimonyBlockIndex t' p = x := by
  have h : t.Mapped := ⟨hsize.1, hfits, hnr.2⟩
  refine ⟨fun p hp => ⟨fun ⟨hge, hlt⟩ => ?_, testimonyBlockIndex_outside h hp⟩, ?_⟩
  · obtain ⟨hidx, hquot⟩ := testimonyBlockIndex_inside h hge hlt
    have hlow := Nat.mul_div_le (p - t.ring) t.conn.blockSize
    have hhigh := Nat.lt_mul_div_succ (p - t.ring) h.blockSize_pos
    refine ⟨_, hquot, ?_, ?_, by omega, by omega⟩
    · rw [hidx, h.toNat_ofNat hquot]
    · rw [hidx]
      exact h.ofNat_ne_invalid hquot
  · intro x numPkts p t' hclaim
    obtain ⟨hlt, rfl, rfl⟩ := of_claimBlock_ok hclaim
    have hback := (testimonyBlockIndex_block h hlt).1
    rwa [UInt32.ofNat_toNat] at hback

/-- Three pages at the very end of the address space. -/
def T.lastPages : T := { T.onRing 3 [] with ring := 2 ^ 64 - 3 * 4096 }

/-- Pointers to the last byte of the middle block, to the last byte there is, and below the ring. -/
theorem block_index_exact_lastPages :
    (testimonyBlockIndex T.lastPages (2 ^ 64 - 4097) = 1 ∧
      testimonyBlockIndex T.lastPages (2 ^ 64 - 1) = 2) ∧
    testimonyBlockIndex T.lastPages 4096 = kInvalidBlockIndex := by
  have hexact := block_index_exact T.lastPages (by decide) (by decide) (by decide)
  exact ⟨by decide +kernel, (hexact.1 4096 (by decide)).2 (by decide)⟩

/-- Returning a block whose count is zero or untouched. -/
theorem returnBlock_ok {t : T} (h : t.Mapped) {i : Nat} (hi : i < t.conn.blockNr)
    {numPkts : UInt32} (hcount : t.blockCounts i = 0 ∨ t.blockCounts i = numPkts) :
    returnBlock t (t.block i) numPkts = (.ok (UInt32.ofNat i),
      { t with blockCounts := Function.update t.blockCounts i 0 }) := by
  obtain ⟨hidx, hne⟩ := testimonyBlockIndex_block h hi
  simp only [returnBlock, hidx, h.toNat_ofNat hi]
  rw [if_neg hne, if_neg (by tauto)]

/-- Returning no more packets than are left. -/
theorem returnPackets_ok {t : T} (h : t.Mapped) {i : Nat} (hi : i < t.conn.blockNr)
    {packets : UInt32} (hcount : packets ≤ t.blockCounts i) :
    returnPackets t (t.block i) packets = (.ok (decide (packets = t.blockCounts i)),
      { t with
        blockCounts := Function.update t.blockCounts i (t.blockCounts i - packets) }) := by
  obtain ⟨hidx, hne⟩ := testimonyBlockIndex_block h hi
  simp only [returnPackets, hidx, h.toNat_ofNat hi]
  rw [if_neg hne]
  by_cases heq : t.blockCounts i = packets
  · rw [if_pos heq]
    simp [heq]
  · rw [if_neg heq, if_neg (UInt32.not_lt.mpr hcount)]
    simp [Ne.symm heq]

end Testimony.Client
