import Mathlib.Data.UInt

/-!
# `Testimony.Tpacket`: the memory of a TPACKET_V3 block

The kernel puts a descriptor at the start of a block, and in it the number of packets and where
the first one is. Every packet has a header, which says how far away the next header is and where
the bytes of the packet are.

Both clients read these structures in place. The memory is a function of the distance from the
start of the block, and goes on behind the block. The host is little-endian.
-/

set_option autoImplicit false

namespace Testimony.Tpacket

/-- What the memory holds, from the first byte of a block on. -/
abbrev Mem := Nat → UInt8

/-- `n` bytes from `a` on. -/
def bytes (m : Mem) (a n : Nat) : List UInt8 := (List.range' a n).map m

/-- A `__u16`. -/
def u16 (m : Mem) (a : Nat) : UInt16 := (m a).toUInt16 ||| (m (a + 1)).toUInt16 <<< 8

/-- A `__u32`. -/
def u32 (m : Mem) (a : Nat) : UInt32 :=
  (m a).toUInt32 ||| (m (a + 1)).toUInt32 <<< 8 ||| (m (a + 2)).toUInt32 <<< 16 |||
    (m (a + 3)).toUInt32 <<< 24

/-! ### `struct tpacket_block_desc` -/

/-- `TPACKET_V3`. -/
def tpacketV3 : UInt32 := 2

/-- `version` of `struct tpacket_block_desc`. -/
def version (m : Mem) (block : Nat) : UInt32 := u32 m block

/-- `hdr.bh1.num_pkts` -/
def numPkts (m : Mem) (block : Nat) : UInt32 := u32 m (block + 12)

/-- `hdr.bh1.offset_to_first_pkt` -/
def offsetToFirstPkt (m : Mem) (block : Nat) : UInt32 := u32 m (block + 16)

/-! ### `struct tpacket3_hdr` -/

/-- `sizeof(struct tpacket3_hdr)` -/
def hdrSize : Nat := 48

/-- `tp_next_offset` of `struct tpacket3_hdr`. -/
def tpNextOffset (m : Mem) (pkt : Nat) : UInt32 := u32 m pkt

/-- `tp_snaplen` of `struct tpacket3_hdr`. -/
def tpSnaplen (m : Mem) (pkt : Nat) : UInt32 := u32 m (pkt + 12)

/-- `tp_mac` of `struct tpacket3_hdr`. -/
def tpMac (m : Mem) (pkt : Nat) : UInt16 := u16 m (pkt + 24)

/-! ### The packets of a block -/

/-- The number of packets. -/
def count (m : Mem) : Nat := (numPkts m 0).toNat

/-- Where the header of a packet is, as far as one follows the chain. -/
def packetAt (m : Mem) : Nat → Nat
  | 0 => (offsetToFirstPkt m 0).toNat
  | j + 1 => packetAt m j + (tpNextOffset m (packetAt m j)).toNat

/-- Where the data of a packet are. -/
def dataAt (m : Mem) (j : Nat) : Nat := packetAt m j + (tpMac m (packetAt m j)).toNat

/-- A TPACKET_V3 block of `size` bytes whose headers are all inside the block. -/
structure Chained (m : Mem) (size : Nat) : Prop where
  size_pos : 0 < size
  version_eq : version m 0 = tpacketV3
  first_pos : 0 < (offsetToFirstPkt m 0).toNat
  header_le : ∀ j < count m, packetAt m j + hdrSize ≤ size

/-- A well formed block: its data are inside the block as well, and an `int` can count its
packets. -/
structure WellFormed (m : Mem) (size : Nat) : Prop extends Chained m size where
  count_lt : count m < 2 ^ 31
  data_le : ∀ j < count m, dataAt m j + (tpSnaplen m (packetAt m j)).toNat ≤ size

/-- No packet is at the start of its block, where the block's own header is. -/
theorem Chained.packetAt_pos {m : Mem} {size : Nat} (h : Chained m size) (j : Nat) :
    0 < packetAt m j := by
  induction j with
  | zero => exact h.first_pos
  | succ j ih => exact Nat.lt_of_lt_of_le ih (Nat.le_add_right _ _)

/-- Each packet of a block starts inside it. -/
theorem Chained.packetAt_lt {m : Mem} {size : Nat} (h : Chained m size) {j : Nat}
    (hj : j < count m) : packetAt m j < size := by
  have := h.header_le j hj
  unfold hdrSize at this
  omega

end Testimony.Tpacket
