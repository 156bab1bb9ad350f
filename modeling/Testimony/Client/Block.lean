import Testimony.Client.Connect

/-!
# `Testimony.Client.Block`: getting and returning blocks

`testimony_get_block`, `testimony_return_block` and `testimony_return_packets`, with the
`block_counts` they keep. A call is cut where another thread could come in between: `getLoop`
is what `testimony_get_block` does until it has an index and `claimBlock` what it does with it,
`returnBlock` is `testimony_return_block` up to its `send_be_32`.

A block is given to the caller as a pointer into the ring. `size_t` is 64 bits wide.
-/

set_option autoImplicit false

namespace Testimony.Client

open Lib Wire

/-- `testimony_internal`. The ring is at address 0 until `testimony_init` has mapped it. -/
structure T where
  sockFd : Nat
  sock : Sock
  conn : Connection
  ring : Nat
  blockCounts : Nat → UInt32

/-! ### `testimony_get_block` -/

/-- The messages of `testimony_get_block`. -/
inductive GetMsg where
  /-- "testimony is not yet initiated, run testimony_init" -/
  | notInitiated
  /-- "testimony poll of socket failed" -/
  | poll
  /-- "recv of block index failed" -/
  | recvIndex
  /-- "received invalid block index %d, should be [0, %d)" -/
  | invalidIndex (blockidx : UInt32) (blockNr : Nat)
  /-- "block count CAS failed for block %d, current count %d != 0" -/
  | casFailed (blockidx : UInt32) (oldCount : UInt32)
  deriving DecidableEq

/-- What `poll` answers. -/
inductive Poll where
  | eintr
  | error (errno : Nat)
  | timeout
  | ready
  deriving DecidableEq

/-- Call `poll` until it is not interrupted. The result is `none` when it timed out, and
otherwise what later calls will answer. -/
def pollLoop : List Poll → EStateM (Stop GetMsg) Sock (Option (List Poll))
  | [] => throw .blocked
  | .eintr :: polls => pollLoop polls
  | .error e :: _ => throw (.fail (.sys e) .poll)
  | .timeout :: _ => return none
  | .ready :: polls => return some polls

/-- Wait for the socket, unless the caller wants to block or there is something in the
buffer. -/
def waitReadable (timeoutMillis : Int) (polls : List Poll) :
    EStateM (Stop GetMsg) Sock (Option (List Poll)) := do
  if timeoutMillis ≥ 0 ∧ (← get).buf = [] then pollLoop polls
  else return some polls

/-- The loop of `testimony_get_block`. Each round reads at least four bytes. The result is
`none` when it timed out. -/
def getLoop (timeoutMillis : Int) :
    Nat → List Poll → EStateM (Stop GetMsg) Sock (Option UInt32)
  | 0, _ => throw .blocked
  | rounds + 1, polls => do
      match ← waitReadable timeoutMillis polls with
      | none => return none
      | some polls =>
          let blockidx ← terr .recvIndex recvBe32
          if protocolType blockidx = typeBlockIndex.toUInt32 then
            return some blockidx
          else
            terr .recvIndex (discardBytes (protocolLength blockidx).toNat)
            getLoop timeoutMillis rounds polls

/-- `testimony_get_block` until it has an index. -/
def readIndex (t : T) (timeoutMillis : Int) (polls : List Poll) :
    EStateM.Result (Stop GetMsg) Sock (Option UInt32) :=
  if t.sockFd = 0 ∨ t.ring = 0 then .error (.fail .EINVAL .notInitiated) t.sock
  else getLoop timeoutMillis ((Source.pending t.sock).length + 1) polls t.sock

/-- The address of a block. -/
def T.block (t : T) (i : Nat) : Nat := t.ring + t.conn.blockSize * i

/-- `testimony_get_block` with an index: check it and put the number of packets in the block
where a zero should be. The result is the address of the block. -/
def claimBlock (t : T) (blockidx numPkts : UInt32) : Except (Errno × GetMsg) Nat × T :=
  if t.conn.blockNr ≤ blockidx.toNat then
    (.error (.mk Errno.EIO (.invalidIndex blockidx t.conn.blockNr)), t)
  else
    -- `__sync_val_compare_and_swap(t->block_counts + blockidx, 0, num_pkts)`
    let oldCount := t.blockCounts blockidx.toNat
    if oldCount = 0 then
      (.ok (t.block blockidx.toNat),
        { t with blockCounts := Function.update t.blockCounts blockidx.toNat numPkts })
    else (.error (.mk Errno.EIO (.casFailed blockidx oldCount)), t)

/-! ### `testimony_return_block` and `testimony_return_packets` -/

/-- The messages of the two return functions. -/
inductive ReturnMsg where
  /-- "block does not appear to have come from this testimony instance" -/
  | foreign
  /-- "block count invalid... maybe testimony_return_block and testimony_return_packet were
  both called?" -/
  | countInvalid
  /-- "return_packets amount overflows number of packets" -/
  | overflows
  /-- "send of block index failed" -/
  | send
  deriving DecidableEq

/-- `kInvalidBlockIndex`. -/
def kInvalidBlockIndex : UInt32 := 0xFFFFFFFF

/-- `testimony_block_index`. -/
def testimonyBlockIndex (t : T) (block : Nat) : UInt32 :=
  let blockptr := (block + (2 ^ 64 - t.ring)) % 2 ^ 64 / t.conn.blockSize
  if t.conn.blockNr ≤ blockptr then kInvalidBlockIndex else UInt32.ofNat blockptr

/-- `testimony_return_block` up to `send_be_32`. The result is the index it is going to
send. -/
def returnBlock (t : T) (block : Nat) (numPkts : UInt32) : Except (Errno × ReturnMsg) UInt32 × T :=
  let blockidx := testimonyBlockIndex t block
  if blockidx = kInvalidBlockIndex then (.error (.EINVAL, .foreign), t)
  else
    -- `__sync_fetch_and_and(t->block_counts + blockidx, 0)`
    let oldCount := t.blockCounts blockidx.toNat
    let t := { t with blockCounts := Function.update t.blockCounts blockidx.toNat 0 }
    if oldCount ≠ 0 ∧ oldCount ≠ numPkts then (.error (.EINVAL, .countInvalid), t)
    else (.ok blockidx, t)

/-- `testimony_return_packets` up to the call of `testimony_return_block`. The result says
whether it makes that call. -/
def returnPackets (t : T) (block : Nat) (packets : UInt32) : Except (Errno × ReturnMsg) Bool × T :=
  let blockidx := testimonyBlockIndex t block
  if blockidx = kInvalidBlockIndex then (.error (.EINVAL, .foreign), t)
  else
    -- `__sync_fetch_and_sub(t->block_counts + blockidx, packets)`
    let count := t.blockCounts blockidx.toNat
    let t := { t with
      blockCounts := Function.update t.blockCounts blockidx.toNat (count - packets) }
    if count = packets then (.ok true, t)
    else if count < packets then (.error (.EINVAL, .overflows), t)
    else (.ok false, t)

end Testimony.Client
