import Mathlib.Order.CompletePartialOrder
import Mathlib.Order.Interval.Set.Disjoint
import Testimony.GoClient.Init
import Testimony.Lib.Except
import Testimony.Proofs.Client.Calls
import Testimony.Proofs.Client.Connect
import Testimony.Proofs.Client.Lifetime
import Testimony.Proofs.GoClient.Connect

/-!
# `Testimony.Proofs.Ring`: the clients stay in the ring

The size and the number of the blocks come from the server, as any two 32-bit numbers. Their
product is the length of the mapping. In C it fits into a `size_t`. In Go it may not fit into an
`int`, and then it is negative, so `syscall.Mmap` refuses it.

`clients_stay_inside` says that every block a client gets, on any input, lies in the ring.
-/

set_option autoImplicit false

namespace Testimony

open Lib Handshake

namespace GoClient

/-! ### The Go client -/

/-- What `syscall.Mmap` returns has the length it was asked for. -/
theorem mmap_ok {answer : Except Nat Tpacket.Mem} {length : Int} {ring : Slice}
    (h : mmap answer length = .ok ring) : 0 < length ∧ ring.len = length ∧ ring.cap = length := by
  rw [mmap] at h
  split at h
  · cases h
  · cases answer with
    | error e => cases h
    | ok mem =>
        cases h
        have hpos : 0 < length := by omega
        have htoNat := Int.toNat_of_nonneg (Int.le_of_lt hpos)
        exact ⟨hpos, htoNat, htoNat⟩

/-- A `Conn` with a ring of `numBlocks` blocks. The length of the ring is an `int`. -/
structure Ready.Sized (t : Ready) (size nr : Nat) : Prop where
  blockSize_eq : t.blockSize = size
  numBlocks_eq : t.numBlocks = nr
  len_eq : t.ring.len = size * nr
  cap_eq : t.ring.cap = size * nr
  size_pos : 0 < size
  isInt : size * nr < 2 ^ 63

/-- `Init` sees to it that the ring is as large as its blocks. -/
theorem sized_of_init {p : Params} (hsize : p.blockSize ≠ 0) {env : InitEnv} {t : Ready}
    (h : (Conn.ofParams p).init env = .ok t) : t.Sized p.blockSize.toNat p.numBlocks.toNat := by
  rw [Conn.init] at h
  cases hsend : env.send with
  | some e =>
      rw [hsend] at h
      cases h
  | none =>
      rw [hsend] at h
      obtain ⟨msg, -, h⟩ := bind_eq_ok.mp h
      obtain ⟨fd, -, h⟩ := bind_eq_ok.mp h
      obtain ⟨ring, hring, h⟩ := bind_eq_ok.mp h
      cases h
      obtain ⟨hpos, hlen, hcap⟩ := mmap_ok (mapError_eq_ok.mp hring)
      obtain ⟨hmul, hlt⟩ := mulInt_of_pos p.blockSize.toNat_lt p.numBlocks.toNat_lt hpos
      refine ⟨rfl, rfl, Int.ofNat.inj (hlen.trans hmul), Int.ofNat.inj (hcap.trans hmul), ?_, hlt⟩
      exact Nat.pos_of_ne_zero fun hzero => hsize (UInt32.toNat_inj.mp hzero)

/-- What `Conn.Block` returns is `ring[i*blockSize : (i+1)*blockSize]` for a block of the ring, and
neither bound has wrapped around. -/
structure RingBlock.Inside (t : Ready) (b : RingBlock t.ring) : Prop where
  index_lt : b.i < t.numBlocks
  low_eq : b.B.low = b.i * t.blockSize
  high_eq : b.B.high = (b.i + 1) * t.blockSize
  high_le : b.B.high ≤ t.ring.len
  isInt : (b.i + 1) * t.blockSize < 2 ^ 63
  len_eq : b.B.toSlice.len = t.blockSize
  mem_eq : ∀ a, b.B.toSlice.mem a = t.ring.mem (b.B.low + a)

/-- The block ends where the next one begins, and the last one where the ring ends. -/
theorem block_end_le (size : Nat) {nr i : Nat} (hi : i < nr) : i * size + size ≤ size * nr := by
  calc i * size + size = size * (i + 1) := by rw [Nat.mul_succ, Nat.mul_comm]
    _ ≤ size * nr := Nat.mul_le_mul_left size hi

/-- An index that `Conn.Block` lets pass is one of a block. -/
theorem returns_block (c : Conn) : Returns c.block fun idx => (idx : Int) < c.numBlocks := by
  refine Returns.of_bind fun segs => Returns.of_bind fun idx => ?_
  exact Returns.ite (fun _ => Returns.throw _) fun h => Returns.pure (Int.not_le.mp h)

/-- Slicing a block out of the ring does not panic. -/
theorem Ready.Sized.window {t : Ready} {size nr : Nat} (h : t.Sized size nr) {i : Nat}
    (hi : i < nr) : ∃ B : Window t.ring, B.low = i * size ∧ B.high = i * size + size ∧
      t.ring.window (mulInt i t.blockSize) (addInt (mulInt i t.blockSize) t.blockSize) =
        some B := by
  have hend := block_end_le size hi
  have hint := h.isInt
  have hcap := h.cap_eq
  have hmul : mulInt i t.blockSize = (i * size : Nat) := by
    rw [h.blockSize_eq, mulInt_eq] <;> rw [← Int.natCast_mul] <;> omega
  have hadd : addInt (i * size : Nat) t.blockSize = (i * size + size : Nat) := by
    rw [h.blockSize_eq, addInt_eq] <;> rw [← Int.natCast_add] <;> omega
  rw [hmul, hadd]
  refine ⟨⟨i * size, i * size + size, Nat.le_add_right .., hcap ▸ hend⟩, rfl, rfl, ?_⟩
  rw [Slice.window, dif_pos (by omega)]
  rfl

/-- Every call returns an error or a block of the ring. -/
theorem Ready.Sized.block {t : Ready} {size nr : Nat} (h : t.Sized size nr) :
    Returns t.block fun res => ∃ b, res = some b ∧ b.Inside t := by
  refine Returns.bind (returns_block t.toConn) fun i hi => Returns.pure ?_
  have hi : i < nr := by
    rw [h.numBlocks_eq] at hi
    exact Int.ofNat_lt.mp hi
  have hend := block_end_le size hi
  have hint := h.isInt
  have hsucc : ((i : Int) + 1) * size = (i * size + size : Nat) := by
    rw [Int.natCast_add, Int.natCast_mul, Int.add_mul, Int.one_mul]
  obtain ⟨B, hlow, hhigh, heq⟩ := h.window hi
  refine ⟨⟨i, B⟩, by rw [heq]; rfl, ?_⟩
  -- The index, where the slice begins and ends, and what it covers.
  constructor
  · rw [h.numBlocks_eq]
    exact Int.ofNat_lt.mpr hi
  · rw [h.blockSize_eq, hlow, Int.natCast_mul]
  · rw [h.blockSize_eq, hhigh, hsucc]
  · rw [hhigh, h.len_eq]
    exact hend
  · rw [h.blockSize_eq, hsucc]
    omega
  · show ((B.high - B.low : Nat) : Int) = t.blockSize
    rw [h.blockSize_eq, hlow, hhigh, Nat.add_sub_cancel_left]
  · exact fun a => rfl

/-- The block is the one whose index was read. -/
theorem block_of_index {t : Ready} {segs segs' : List Seg} {i : Nat}
    (h : t.toConn.block segs = .ok i segs') :
    ∃ res, t.block segs = .ok res segs' ∧ ∀ b, res = some b → b.i = i := by
  refine ⟨_, bind_ok h, fun b hb => ?_⟩
  obtain ⟨B, -, rfl⟩ := Option.map_eq_some_iff.mp hb
  rfl

/-- A block ends before one with a larger index begins. -/
theorem RingBlock.Inside.high_le_low {t : Ready} {size nr : Nat} (h : t.Sized size nr)
    {b b' : RingBlock t.ring} (hb : b.Inside t) (hb' : b'.Inside t) (hlt : b.i < b'.i) :
    b.B.high ≤ b'.B.low := by
  have hle : ((b.i + 1 : Nat) : Int) * size ≤ (b'.i : Int) * size :=
    Int.mul_le_mul_of_nonneg_right (Int.ofNat_le.mpr hlt) (Int.natCast_nonneg size)
  have hhigh := hb.high_eq
  have hlow := hb'.low_eq
  rw [h.blockSize_eq] at hhigh hlow
  rw [Int.natCast_add, Int.natCast_one] at hle
  omega

/-- Blocks of different indexes have no byte in common. -/
theorem RingBlock.Inside.disjoint {t : Ready} {size nr : Nat} (h : t.Sized size nr)
    {b b' : RingBlock t.ring} (hb : b.Inside t) (hb' : b'.Inside t) (hne : b.i ≠ b'.i) :
    Disjoint (Set.Ico b.B.low b.B.high) (Set.Ico b'.B.low b'.B.high) := by
  rw [Set.Ico_disjoint_Ico]
  rcases Nat.lt_or_gt_of_ne hne with hlt | hgt
  · exact (min_le_left _ _).trans ((hb.high_le_low h hb' hlt).trans (le_max_right _ _))
  · exact (min_le_right _ _).trans ((hb'.high_le_low h hb hgt).trans (le_max_left _ _))

end GoClient

namespace Client

/-! ### The C client -/

/-- The product of two 32-bit numbers fits in a `size_t`. -/
theorem sizeProduct_eq {a b : Nat} (ha : a < 2 ^ 32) (hb : b < 2 ^ 32) : sizeProduct a b = a * b :=
  Nat.mod_eq_of_lt (show a * b < 2 ^ 32 * 2 ^ 32 from Nat.mul_lt_mul'' ha hb)

/-- `testimony_init` maps the whole ring, or leaves it where it was: nowhere. -/
theorem testimonyInit_ring (env : InitEnv) {t : Internal} (hring : t.ring = 0) (p : Process) :
    (testimonyInit env t p).t.conn = t.conn ∧
    ((testimonyInit env t p).t.ring = 0 ∨
      (testimonyInit env t p).t.ring + sizeProduct t.conn.blockSize t.conn.blockNr ≤ 2 ^ 64 ∧
      Resource.mapping (testimonyInit env t p).t.ring
        (sizeProduct t.conn.blockSize t.conn.blockNr) ∈ (testimonyInit env t p).p) := by
  rw [testimonyInit, if_neg (not_not.mpr hring)]
  split
  · exact ⟨rfl, .inl hring⟩
  · exact ⟨rfl, .inl hring⟩
  · split
    · exact ⟨rfl, .inl hring⟩
    · simp only [mapFd]
      split
      · rename_i ring _
        exact ⟨rfl, .inr ⟨ring.2.2.1, Finset.mem_insert_self ..⟩⟩
      · exact ⟨rfl, .inl rfl⟩

/-- A struct without a ring, with sizes of 32 bits. -/
structure Internal.Sized (t : Internal) : Prop where
  ring_eq : t.ring = 0
  blockSize_pos : 0 < t.conn.blockSize
  blockSize_lt : t.conn.blockSize < 2 ^ 32
  blockNr_lt : t.conn.blockNr < 2 ^ 32

/-- `testimony_connect` makes such a struct, whatever the server sends. -/
theorem sized_of_connect {env : ConnectEnv} {p p' : Process} {t : Internal}
    (h : testimonyConnectCall env p = (.ok t, p')) : t.Sized := by
  rw [testimonyConnectCall] at h
  cases hmalloc : env.malloc p with
  | none =>
      rw [hmalloc] at h
      cases h
  | some addr =>
      rw [hmalloc] at h
      have hcases := connectWith_cases env addr.val (insert (.heap addr.val) p)
      rw [show connectWith env addr.val (insert (.heap addr.val) p) = (.ok t, p') from h] at hcases
      obtain ⟨⟨fd, hnew⟩, sock, hread⟩ := hcases.of_ok
      obtain ⟨q, hq, hsize, -⟩ := returns_testimonyConnect _ _ _ hread
      refine ⟨hnew.ring_eq, ?_, hq ▸ q.blockSize.toNat_lt, hq ▸ q.numBlocks.toNat_lt⟩
      rw [hq]
      exact Nat.pos_of_ne_zero fun hzero => hsize (UInt32.toNat_inj.mp hzero)

/-- With a ring or without one, the blocks of a client fit into the address space. -/
theorem Internal.Sized.mapped {t : Internal} (h : t.Sized) (env : InitEnv) (p : Process)
    (sock : Sock) : ((testimonyInit env t p).t.toT sock).Mapped := by
  obtain ⟨hconn, hring⟩ := testimonyInit_ring env h.ring_eq p
  rw [sizeProduct_eq h.blockSize_lt h.blockNr_lt] at hring
  have hlt : t.conn.blockSize * t.conn.blockNr < 2 ^ 32 * 2 ^ 32 :=
    Nat.mul_lt_mul'' h.blockSize_lt h.blockNr_lt
  rw [Internal.toT, hconn]
  refine ⟨h.blockSize_pos, ?_, h.blockNr_lt⟩
  show (testimonyInit env t p).t.ring + t.conn.blockSize * t.conn.blockNr ≤ 2 ^ 64
  rcases hring with hzero | ⟨hfits, -⟩ <;> omega

/-- `testimony_get_block` succeeds with a pointer, after any calls on the connection. -/
def Gets (t : T) (block : Nat) : Prop :=
  ∃ s, (callSystem t).Reachable s ∧ ∃ timeoutMillis polls x sock numPkts t',
    readIndex s.t timeoutMillis polls = .ok (some x) sock ∧
    claimBlock { s.t with sock := sock } x numPkts = (.ok block, t')

/-- There is a ring, and the pointer is that of one of its blocks. -/
theorem Gets.ring_ne {t : T} (h : t.Mapped) {block : Nat} (hget : Gets t block) :
    t.ring ≠ 0 ∧ ∃ i < t.conn.blockNr, block = t.ring + t.conn.blockSize * i := by
  obtain ⟨s, hs, timeoutMillis, polls, x, sock, numPkts, t', hread, hclaim⟩ := hget
  have hpointers : s.Pointers t :=
    hs.invariant ⟨rfl, rfl, by simp [callSystem]⟩ fun _ _ _ _ hp hstep => hp.step h hstep
  obtain ⟨hx, hblock, -⟩ := of_claimBlock_ok hclaim
  refine ⟨fun hzero => ?_, x.toNat, hpointers.conn_eq ▸ hx, ?_⟩
  · rw [readIndex, if_pos (.inr (hpointers.ring_eq.trans hzero))] at hread
    cases hread
  · rw [hblock, T.block]
    show s.t.ring + s.t.conn.blockSize * x.toNat = _
    rw [hpointers.conn_eq, hpointers.ring_eq]

/-- A block that lies in the mapping of `testimony_init`. -/
structure InitDone.Holds (d : InitDone) (block : Nat) : Prop where
  index : ∃ i < d.t.conn.blockNr, block = d.t.ring + d.t.conn.blockSize * i
  end_le : block + d.t.conn.blockSize ≤ d.t.ring + d.t.conn.blockSize * d.t.conn.blockNr
  mapped : Resource.mapping d.t.ring (d.t.conn.blockSize * d.t.conn.blockNr) ∈ d.p
  fits : block + d.t.conn.blockSize ≤ 2 ^ 64

/-- A block that `testimony_get_block` hands out lies within the ring that `testimony_init` has
mapped. -/
theorem Internal.Sized.holds {t : Internal} (h : t.Sized) (env : InitEnv) (p : Process)
    {sock : Sock} {block : Nat} (hget : Gets ((testimonyInit env t p).t.toT sock) block) :
    (testimonyInit env t p).Holds block := by
  have hmapped := h.mapped env p sock
  obtain ⟨hne, i, hi, hblock⟩ := hget.ring_ne hmapped
  obtain ⟨hconn, hzero | ⟨hfits, hmem⟩⟩ := testimonyInit_ring env h.ring_eq p
  · exact absurd hzero hne
  · generalize testimonyInit env t p = d at *
    have hend : block + d.t.conn.blockSize ≤ d.t.ring + d.t.conn.blockSize * d.t.conn.blockNr := by
      have hle : d.t.conn.blockSize * (i + 1) ≤ d.t.conn.blockSize * d.t.conn.blockNr :=
        Nat.mul_le_mul_left _ hi
      have hblock : block = d.t.ring + d.t.conn.blockSize * i := hblock
      rw [Nat.mul_succ] at hle
      omega
    refine ⟨⟨i, hi, hblock⟩, hend, ?_, hend.trans hmapped.fits⟩
    rw [hconn, ← sizeProduct_eq h.blockSize_lt h.blockNr_lt]
    exact hmem

end Client

/-! ### Both clients -/

/-- Whatever the server sends, a block that a client gets is a block of the ring. In Go a call
returns an error or a block, and the slice expression does not panic. In C this holds of every
pointer that `testimony_get_block` returns, after any calls. -/
theorem clients_stay_inside :
    (∀ segs segs' c env t, GoClient.connect segs = .ok c segs' → c.init env = .ok t →
      Returns t.block (fun res => ∃ b, res = some b ∧ b.Inside t) ∧
      ∀ b b' : GoClient.RingBlock t.ring, b.Inside t → b'.Inside t → b.i ≠ b'.i →
        Disjoint (Set.Ico b.B.low b.B.high) (Set.Ico b'.B.low b'.B.high)) ∧
    ∀ env p t p', Client.testimonyConnectCall env p = (.ok t, p') → ∀ index env' sock block,
      Client.Gets ((Client.testimonyInit env' (t.setFanoutIndex index) p').t.toT sock) block →
      (Client.testimonyInit env' (t.setFanoutIndex index) p').Holds block := by
  constructor
  · intro segs segs' c env t hconnect hinit
    obtain ⟨q, rfl, hsize, -⟩ := GoClient.returns_connect _ _ _ hconnect
    have hsized := GoClient.sized_of_init hsize hinit
    exact ⟨hsized.block, fun b b' hb hb' hne => hb.disjoint hsized hb' hne⟩
  · intro env p t p' hconnect index env' sock block hget
    have hsized := Client.sized_of_connect hconnect
    have hsized' : (t.setFanoutIndex index).Sized := ⟨hsized.1, hsized.2, hsized.3, hsized.4⟩
    exact hsized'.holds env' p' hget

/-- A Go client that gets its ring. -/
def GoClient.quietInit : GoClient.InitEnv :=
  ⟨none, .ok ⟨1, 20, .ok [.ok [7]]⟩, .ok fun _ => 0⟩

/-- Both clients on a ring of four pages, with the third block. -/
theorem clients_stay_inside_fourPages :
    (∃ c segs t, GoClient.connect Client.fourPages = .ok c segs ∧
      c.init GoClient.quietInit = .ok t ∧
      ∃ b segs', t.block [.data 0 [0, 0, 2]] = .ok (some b) segs' ∧ b.i = 2 ∧ b.Inside t) ∧
    ∃ t p', Client.testimonyConnectCall Client.quietConnect ∅ = (.ok t, p') ∧
      (Client.testimonyInit Client.quietInit (t.setFanoutIndex 0) p').Holds (65536 + 2 * 4096) := by
  constructor
  · let t : GoClient.Ready := ⟨⟨4, 4096, 1⟩, 7, fun _ => 0, 16384, 16384, Nat.le_refl _⟩
    have hconnect : GoClient.connect Client.fourPages = .ok t.toConn [] := rfl
    have hmmap : GoClient.mmap GoClient.quietInit.mmap (mulInt t.blockSize t.numBlocks) =
        .ok t.ring := by
      rw [show mulInt t.blockSize t.numBlocks = 16384 by decide +kernel]
      rfl
    have hinit : t.toConn.init GoClient.quietInit = .ok t := by
      rw [GoClient.Conn.init, hmmap]
      rfl
    have hindex : t.toConn.block [.data 0 [0, 0, 2]] = .ok 2 [] := rfl
    obtain ⟨res, hblock, hi⟩ := GoClient.block_of_index hindex
    obtain ⟨b, rfl, hinside⟩ := (clients_stay_inside.1 _ _ _ _ _ hconnect hinit).1 _ _ _ hblock
    exact ⟨_, _, t, hconnect, hinit, b, _, hblock, hi b rfl, hinside⟩
  · refine ⟨_, _, rfl, ?_⟩
    refine clients_stay_inside.2 Client.quietConnect ∅ _ _ rfl 0 _ ⟨[], [.data 0 [0, 0, 2]]⟩ _ ?_
    exact ⟨_, .init, -1, [], 2, ⟨[], []⟩, 5, _, rfl, rfl⟩

end Testimony
