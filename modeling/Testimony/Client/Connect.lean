import Testimony.Client.Recv

/-!
# `Testimony.Client.Connect`: the C client's side of the handshake

`testimony_connect`, from the point where its socket is connected: read the version byte and
then TLVs until the server waits for the fanout index.
-/

set_option autoImplicit false

namespace Testimony.Client

open Lib Wire

/-- `testimony_connection`. `fanout_size` and `fanout_index` are C `int`s, the others are
`size_t`. -/
structure Connection where
  fanoutSize : Int32
  blockSize : Nat
  blockNr : Nat
  fanoutIndex : Int32
  deriving DecidableEq

/-- The messages of `testimony_connect`. -/
inductive ConnectMsg where
  /-- "recv of protocol version failed" -/
  | recvVersion
  /-- "received unsupported protocol version %d" -/
  | unsupportedVersion (version : UInt8)
  /-- "did not receive fanout size" -/
  | recvHead
  /-- "did not receive type %d uint32 value" -/
  | recvValue (typ : UInt32)
  /-- "did not discard type %d value" -/
  | discardValue (typ : UInt32)
  /-- "didn't get fanout size and block size/nr" -/
  | missing
  deriving DecidableEq

/-- The `switch` over the type of a 4-byte value. -/
def Connection.store (conn : Connection) (typ msg : UInt32) : Connection :=
  if typ = typeFanoutSize.toUInt32 then { conn with fanoutSize := msg.toInt32 }
  else if typ = typeBlockSize.toUInt32 then { conn with blockSize := msg.toNat }
  else if typ = typeNumBlocks.toUInt32 then { conn with blockNr := msg.toNat }
  else conn

/-- The loop of `testimony_connect`. Each round reads at least four bytes, so it cannot go
round more often than there are bytes. -/
def connectLoop : Nat → Connection → EStateM (Stop ConnectMsg) Sock Connection
  | 0, _ => throw .blocked
  | rounds + 1, conn => do
      let msg ← terr .recvHead recvBe32
      let protoTyp := protocolType msg
      let protoLen := protocolLength msg
      if protoTyp = typeWaitingForFanoutIndex.toUInt32 ∧ protoLen = 0 then
        return conn
      if protoLen = 4 then
        let msg ← terr (.recvValue protoTyp) recvBe32
        connectLoop rounds (conn.store protoTyp msg)
      else
        terr (.discardValue protoTyp) (discardBytes protoLen.toNat)
        connectLoop rounds conn

/-- `testimony_connect`, once the socket is connected. The result is `t->conn`. -/
def testimonyConnect : EStateM (Stop ConnectMsg) Sock Connection := do
  let version := (← terr .recvVersion (recvT 1)).headD 0
  if version ≠ protocolVersion then
    throw (.fail .EPROTONOSUPPORT (.unsupportedVersion version))
  -- `memset(t, 0, sizeof(*t))`
  let conn ← connectLoop ((Source.pending (← get)).length + 1) ⟨0, 0, 0, 0⟩
  if conn.fanoutSize = 0 ∨ conn.blockSize = 0 ∨ conn.blockNr = 0 then
    throw (.fail .EINVAL .missing)
  return conn

end Testimony.Client
