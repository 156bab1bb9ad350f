import Testimony.Proofs.Daemon.Fanout
import Testimony.Proofs.Handshake

/-!
# `Testimony.Proofs.Daemon.Layout`: the ring as each party sees it

The `BlockSize` and the `NumBlocks` of an entry reach the kernel as C `int`s, the daemon counts
and multiplies with them as Go `int`s and `uintptr`s, and the clients are sent `uint32`s. Nothing
checks that they survive. `layouts_agree_iff` says for which entries everybody sees the same
blocks: for those whose two numbers are positive C `int`s, and for no others.
-/

set_option autoImplicit false

namespace Testimony.Daemon

open Lib Handshake

/-! ### Views of the ring -/

/-- A ring of blocks one after the other. -/
structure Layout where
  blockSize : Nat
  numBlocks : Nat
  deriving DecidableEq

/-- Where a block begins. -/
def Layout.offset (l : Layout) (index : Nat) : Nat := l.blockSize * index

/-- The ring a call asks the kernel for. -/
def Syscall.layout : Syscall → Option Layout
  | .rxRing req => some ⟨req.blockSize.toNat, req.blockNr.toNat⟩
  | _ => none

/-- The length of the memory a call maps. -/
def Syscall.mapped : Syscall → Option Nat
  | .mmap length => some length.toNat
  | _ => none

/-- The rings the kernel has set up for a socket. -/
def Socket.kernelLayouts (s : Socket) : List Layout := s.calls.filterMap Syscall.layout

/-- The mappings of a socket. -/
def Socket.mappings (s : Socket) : List Nat := s.calls.filterMap Syscall.mapped

/-- The ring as `cblock` and `getNewBlocks` see it. -/
def Socket.daemonLayout (s : Socket) : Layout := ⟨(uintptr s.conf.blockSize).toNat, s.numBlocks⟩

/-- The ring as the clients learn of it, one of `fanoutSize` rings. -/
def Socket.clientLayout (s : Socket) (fanoutSize : Nat) : Layout :=
  let p := Params.sent fanoutSize s.conf.toSocketConfig
  ⟨p.blockSize.toNat, p.numBlocks.toNat⟩

/-- Everybody sees the ring `l`, of which `length` bytes are mapped. -/
structure Socket.LayoutsAgree (s : Socket) (l : Layout) (length : Nat) : Prop where
  kernel : s.kernelLayouts = [l]
  mapped : s.mappings = [length]
  daemon : s.daemonLayout = l
  /-- The bound in `handleReads`. -/
  handleReads : s.conf.numBlocks = l.numBlocks
  clients : ∀ fanoutSize, s.clientLayout fanoutSize = l
  cblock : ∀ index < s.numBlocks, (s.cblock index).toNat = l.offset index
  inside : ∀ index < s.numBlocks, l.offset index + l.blockSize ≤ length

/-! ### The numbers on the way -/

/-- A conversion to `uintptr` takes the number modulo `2 ^ 64`. -/
theorem toNat_uintptr (x : Int) : (uintptr x).toNat = (x % 2 ^ 64).toNat :=
  BitVec.toNat_ofInt x

/-- The ring that a successful `newSocket` has asked for and mapped. -/
theorem layouts_of_newSocket {kernel : Kernel} {compile : Option (List SockFilter)}
    {sc : ConfigEntry} {id : Int} {num : Nat} {s : Socket}
    (h : newSocket kernel compile sc id num = .ok s) :
    s.kernelLayouts = [⟨(sc.blockSize % 2 ^ 32).toNat, (sc.numBlocks % 2 ^ 32).toNat⟩] ∧
      s.mappings = [(sc.blockSize % 2 ^ 32).toNat * (sc.numBlocks % 2 ^ 32).toNat] := by
  obtain ⟨-, -, -, filters, -, hcalls, -⟩ := newSocket_ok h
  -- Neither the filter nor the fanout has to do with the ring.
  have hfilter : (sc.args id filters).filterCalls.filterMap Syscall.layout = [] ∧
      (sc.args id filters).filterCalls.filterMap Syscall.mapped = [] := by
    unfold AFPacketArgs.filterCalls
    split <;> exact ⟨rfl, rfl⟩
  have hfanout : (sc.args id filters).fanoutCalls.filterMap Syscall.layout = [] ∧
      (sc.args id filters).fanoutCalls.filterMap Syscall.mapped = [] := by
    unfold AFPacketArgs.fanoutCalls
    split <;> exact ⟨rfl, rfl⟩
  rw [Socket.kernelLayouts, Socket.mappings, hcalls, AFPacketArgs.allCalls,
    ← toNat_toUInt32_ofInt, ← toNat_toUInt32_ofInt, ← toNat_mul_toUInt64]
  simp only [List.filterMap_cons_none (f := Syscall.layout) (a := .socket) rfl,
    List.filterMap_cons_none (f := Syscall.mapped) (a := .socket) rfl, List.filterMap_append,
    hfilter, hfanout, List.append_nil]
  exact ⟨rfl, rfl⟩

/-- The kernel only takes a ring whose two numbers are positive as C `int`s. -/
def Kernel.ChecksRing (kernel : Kernel) : Prop :=
  ∀ req, kernel.rxRing req = none → 0 < req.blockSize.toInt32 ∧ 0 < req.blockNr.toInt32

/-- What is left of the two numbers is positive and below `2 ^ 31`. -/
theorem ring_positive {kernel : Kernel} (hkernel : kernel.ChecksRing)
    {compile : Option (List SockFilter)} {sc : ConfigEntry} {id : Int} {num : Nat} {s : Socket}
    (h : newSocket kernel compile sc id num = .ok s) :
    (0 < sc.blockSize % 2 ^ 32 ∧ sc.blockSize % 2 ^ 32 < 2 ^ 31) ∧
      (0 < sc.numBlocks % 2 ^ 32 ∧ sc.numBlocks % 2 ^ 32 < 2 ^ 31) := by
  obtain ⟨-, -, -, filters, -, -, hring⟩ := newSocket_ok h
  obtain ⟨hsize, hnr⟩ := hkernel _ hring
  rw [toInt32_pos] at hsize hnr
  have hsize' : (sc.args id filters).tp3.blockSize.toNat = (sc.blockSize % 2 ^ 32).toNat :=
    toNat_toUInt32_ofInt _
  have hnr' : (sc.args id filters).tp3.blockNr.toNat = (sc.numBlocks % 2 ^ 32).toNat :=
    toNat_toUInt32_ofInt _
  omega

/-- The offset of a block of a ring whose numbers are C `int`s does not wrap around. -/
theorem toNat_cblock {s : Socket} {index : Nat}
    (hsize : 0 ≤ s.conf.blockSize ∧ s.conf.blockSize < 2 ^ 31) (hindex : index < 2 ^ 31) :
    (s.cblock index).toNat = s.conf.blockSize.toNat * index := by
  have hmul : s.conf.blockSize.toNat * index ≤ 2 ^ 31 * 2 ^ 31 :=
    Nat.mul_le_mul (by omega) (by omega)
  have hsize' : (s.conf.blockSize % 2 ^ 64).toNat = s.conf.blockSize.toNat := by omega
  have hindex' : ((index : Int) % 2 ^ 64).toNat = index := by omega
  rw [Socket.cblock, UInt64.toNat_mul, toNat_uintptr, toNat_uintptr, hsize', hindex']
  exact Nat.mod_eq_of_lt (by omega)

/-- The layouts of a socket that `newSocket` returns agree exactly when the `BlockSize` and the
`NumBlocks` of its entry are positive C `int`s. -/
theorem layouts_agree_iff (kernel : Kernel) (hkernel : kernel.ChecksRing)
    (compile : Option (List SockFilter)) (sc : ConfigEntry) (id : Int) (num : Nat) (s : Socket)
    (h : newSocket kernel compile sc id num = .ok s) :
    (∃ l length, s.LayoutsAgree l length) ↔
      (0 < sc.blockSize ∧ sc.blockSize < 2 ^ 31) ∧ (0 < sc.numBlocks ∧ sc.numBlocks < 2 ^ 31) := by
  obtain ⟨hnonneg, hconf, hblocks, -⟩ := newSocket_ok h
  obtain ⟨hlayouts, hmappings⟩ := layouts_of_newSocket h
  obtain ⟨hsize, hnr⟩ := ring_positive hkernel h
  constructor
  · rintro ⟨l, length, hagree⟩
    -- The kernel's numbers are remainders modulo `2 ^ 32`. If the daemon's are the same, they are
    -- the numbers of the entry.
    obtain rfl : _ = l := List.singleton_inj.mp (hlayouts.symm.trans hagree.kernel)
    obtain ⟨hdaemon, -⟩ := Layout.mk.inj hagree.daemon
    have hreads := hagree.handleReads
    rw [toNat_uintptr, hconf] at hdaemon
    rw [hconf] at hreads
    have hint := sc.isInt_blockSize
    unfold IsInt at hint
    simp only at hreads
    omega
  · rintro ⟨hsize', hnr'⟩
    have hmod : (sc.blockSize % 2 ^ 32).toNat = sc.blockSize.toNat := by omega
    have hmod' : (sc.numBlocks % 2 ^ 32).toNat = sc.numBlocks.toNat := by omega
    rw [hmod, hmod'] at hlayouts hmappings
    refine ⟨_, _, hlayouts, hmappings, ?_, ?_, ?_, ?_, ?_⟩
    · rw [Socket.daemonLayout, hconf, hblocks, toNat_uintptr]
      congr 1
      omega
    · rw [hconf]
      exact (Int.toNat_of_nonneg hnonneg).symm
    · intro fanoutSize
      simp only [Socket.clientLayout, Params.sent, hconf, toNat_uint32_ofInt, hmod, hmod']
    · intro index hindex
      rw [toNat_cblock (by rw [hconf]; omega) (by omega), hconf]
      rfl
    · -- Blocks up to the last one fit into the product that was mapped.
      intro index hindex
      rw [hblocks] at hindex
      exact Nat.mul_le_mul_left sc.blockSize.toNat hindex

/-- An entry for one ring. -/
def oneRing (blockSize numBlocks : Int) (hsize : IsInt blockSize) (hnr : IsInt numBlocks) :
    ConfigEntry :=
  { twoSockets "a" 1 with
      blockSize := blockSize
      numBlocks := numBlocks
      fanoutSize := 1
      isInt_blockSize := hsize
      isInt_numBlocks := hnr }

/-- The kernel that grants everything else checks the sizes of the ring. -/
theorem quietKernel_checksRing : quietKernel.ChecksRing := by
  intro req h
  by_contra hneg
  exact absurd (h.symm.trans (if_neg hneg)) (by simp)

/-- The views of a socket, and where the daemon looks for its second block. -/
def Socket.views (s : Socket) : List Layout × Layout × Layout × List Nat × Nat :=
  (s.kernelLayouts, s.daemonLayout, s.clientLayout 1, s.mappings, (s.cblock 1).toNat)

/-- Sixteen blocks of a megabyte. -/
theorem layouts_agree_iff_megabytes :
    ∃ s, newSocket quietKernel none (oneRing 1048576 16 (by decide) (by decide)) 1 0 = .ok s ∧
      s.views = ([⟨1048576, 16⟩], ⟨1048576, 16⟩, ⟨1048576, 16⟩, [16777216], 1048576) ∧
      ∃ l length, s.LayoutsAgree l length := by
  obtain ⟨s, hs, hviews⟩ := ok_of_toOption (f := Socket.views) (show
    (newSocket quietKernel none (oneRing 1048576 16 (by decide) (by decide)) 1 0).toOption.map
      Socket.views = some ([⟨1048576, 16⟩], ⟨1048576, 16⟩, ⟨1048576, 16⟩, [16777216], 1048576)
    by decide +kernel)
  exact ⟨s, hs, hviews, (layouts_agree_iff quietKernel quietKernel_checksRing none _ 1 0 s hs).mpr
    (by decide)⟩

/-- Two blocks of `2 ^ 32 + 4096` bytes: the kernel takes them for two of 4096 bytes, and so do
the clients, while the daemon looks for the second one far behind the mapped memory. -/
theorem layouts_disagree :
    ∃ s, newSocket quietKernel none (oneRing (2 ^ 32 + 4096) 2 (by decide) (by decide)) 1 0 =
        .ok s ∧
      s.views = ([⟨4096, 2⟩], ⟨2 ^ 32 + 4096, 2⟩, ⟨4096, 2⟩, [8192], 2 ^ 32 + 4096) ∧
      ¬ ∃ l length, s.LayoutsAgree l length := by
  obtain ⟨s, hs, hviews⟩ := ok_of_toOption (f := Socket.views) (show
    (newSocket quietKernel none (oneRing (2 ^ 32 + 4096) 2 (by decide) (by decide)) 1
      0).toOption.map Socket.views =
        some ([⟨4096, 2⟩], ⟨2 ^ 32 + 4096, 2⟩, ⟨4096, 2⟩, [8192], 2 ^ 32 + 4096)
    by decide +kernel)
  refine ⟨s, hs, hviews, ?_⟩
  rintro ⟨l, length, hagree⟩
  simp only [Socket.views, Prod.mk.injEq] at hviews
  -- The kernel and the daemon would have to agree on the block size.
  have hkernel : (⟨4096, 2⟩ : Layout) = l :=
    List.singleton_inj.mp (hviews.1.symm.trans hagree.kernel)
  have hdaemon : (⟨2 ^ 32 + 4096, 2⟩ : Layout) = l := hviews.2.1.symm.trans hagree.daemon
  exact absurd (hkernel.trans hdaemon.symm) (by decide)

end Testimony.Daemon
