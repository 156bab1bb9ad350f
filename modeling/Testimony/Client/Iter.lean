import Testimony.Client.Recv
import Testimony.Tpacket

/-!
# `Testimony.Client.Iter`: the packets of a block in the C client

`testimony_iter_init`, `testimony_iter_reset`, `testimony_iter_next` and `testimony_packet_data`.
A pointer into the block is the distance from its start. An `int` has 32 bits.
-/

set_option autoImplicit false

namespace Testimony.Client

open Tpacket

/-- `testimony_iter_internal`. Pointers are `none` when they are `NULL`. -/
structure Iter where
  block : Option Mem
  pkt : Option Nat
  left : Int32

/-- `testimony_iter_init` -/
def iterInit : Iter := ⟨none, none, 0⟩

/-- `testimony_iter_reset`. A block of another version leaves the iterator as it was. -/
def iterReset (iter : Iter) (block : Mem) : Except Errno Iter :=
  if version block 0 ≠ tpacketV3 then .error .EPROTONOSUPPORT
  else .ok { iter with block := some block, left := (numPkts block 0).toInt32, pkt := none }

/-- The program has followed a null pointer. -/
inductive Fault where
  | nullDereference
  deriving DecidableEq

/-- `testimony_iter_next` -/
def iterNext (iter : Iter) : Except Fault (Option Nat × Iter) :=
  -- The count comes first, so that nothing moves at the end.
  if iter.left = 0 then .ok (none, iter)
  else
    match iter.block with
    | none => .error .nullDereference
    | some block =>
        let pkt := match iter.pkt with
          | some pkt => pkt + (tpNextOffset block pkt).toNat
          -- The first packet after a reset.
          | none => (offsetToFirstPkt block 0).toNat
        .ok (some pkt, { iter with left := iter.left - 1, pkt := some pkt })

/-- `testimony_packet_data` -/
def packetData (m : Mem) (pkt : Nat) : Nat := pkt + (tpMac m pkt).toNat

/-- Call `testimony_iter_next` until it returns `NULL`, and collect the headers together with
where `testimony_packet_data` points. The result is `none` if `calls` calls are not enough. -/
def Iter.visit (m : Mem) : Nat → Iter → Except Fault (Option (List (Nat × Nat)))
  | 0, _ => return none
  | calls + 1, iter => do
      match ← iterNext iter with
      | (none, _) => return some []
      | (some pkt, iter) => return (← iter.visit m calls).map ((pkt, packetData m pkt) :: ·)

end Testimony.Client
