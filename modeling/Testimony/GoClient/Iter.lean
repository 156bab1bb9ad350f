import Testimony.Tpacket

/-!
# `Testimony.GoClient.Iter`: the packets of a block in the Go client

`Block.Next`, `Block.Packet` and `Block.PacketData` of `go/testimony/testimony.go`. A block is a
slice of the ring, so its capacity reaches up to the end of the ring. Taking the address of an
element is checked against the length, and slicing against the capacity. A header is read through
an unsafe pointer, which is checked for nothing but `nil`.

A pointer into the slice is the distance from its start.
-/

set_option autoImplicit false

namespace Testimony.GoClient

open Tpacket

/-- A `[]byte`. -/
structure Slice where
  mem : Mem
  len : Nat
  cap : Nat
  len_le_cap : len ≤ cap

/-- The runtime panics. -/
inductive Panic where
  /-- "index out of range [%x] with length %y" -/
  | index (i len : Nat)
  /-- "slice bounds out of range" -/
  | slice (low high cap : Nat)
  /-- "invalid memory address or nil pointer dereference" -/
  | nilDereference
  deriving DecidableEq

/-- `&b[i]` -/
def Slice.addr (b : Slice) (i : Nat) : Except Panic Nat :=
  if i < b.len then .ok i else .error (.index i b.len)

/-- The bytes of `b[low:high]`. -/
def Slice.slice (b : Slice) (low high : Nat) : Except Panic (List UInt8) :=
  if low ≤ high ∧ high ≤ b.cap then .ok (bytes b.mem low (high - low))
  else .error (.slice low high b.cap)

/-- The part of `Block` that iterating uses. -/
structure Block where
  B : Slice
  offset : Nat
  left : Int
  pkt : Option Nat

/-- A block as `Conn.Block` returns it. -/
def Block.fresh (B : Slice) : Block := ⟨B, 0, 0, none⟩

/-- `Block.header` -/
def Block.header (b : Block) : Except Panic Nat := b.B.addr 0

/-- `Block.Next` -/
def Block.next (b : Block) : Except Panic (Bool × Block) := do
  let b ←
    -- An offset of zero stands for the first call.
    if b.offset = 0 then do
      let header ← b.header
      pure { b with
        left := (numPkts b.B.mem header).toNat
        offset := (offsetToFirstPkt b.B.mem header).toNat }
    else
      match b.pkt with
      | none => throw .nilDereference
      | some pkt => pure { b with offset := b.offset + (tpNextOffset b.B.mem pkt).toNat }
  if b.left ≤ 0 then
    return (false, b)
  let pkt ← b.B.addr b.offset
  return (true, { b with left := b.left - 1, pkt := some pkt })

/-- `Block.Packet` -/
def Block.packet (b : Block) : Option Nat := b.pkt

/-- `Block.PacketData`. The result is `none` for `nil`. -/
def Block.packetData (b : Block) : Except Panic (Option (List UInt8)) :=
  match b.pkt with
  | none => .ok none
  | some pkt => do
      -- A `Next` that returns `false` has moved `offset` but not `pkt`.
      let start := b.offset + (tpMac b.B.mem pkt).toNat
      return some (← b.B.slice start (start + (tpSnaplen b.B.mem pkt).toNat))

/-- Call `Next` until it returns `false`, and collect what `Packet` and `PacketData` return each
time. The result is `none` if `calls` calls are not enough. -/
def Block.visit : Nat → Block → Except Panic (Option (List (Option Nat × Option (List UInt8))))
  | 0, _ => return none
  | calls + 1, b => do
      let (more, b) ← b.next
      if more then
        let data ← b.packetData
        return (← b.visit calls).map ((b.packet, data) :: ·)
      else
        return some []

/-- Call `Next` a number of times, whatever it returns. -/
def Block.nexts : Nat → Block → Except Panic (List Bool × Block)
  | 0, b => return ([], b)
  | k + 1, b => do
      let (more, b) ← b.next
      let (rest, b) ← b.nexts k
      return (more :: rest, b)

end Testimony.GoClient
