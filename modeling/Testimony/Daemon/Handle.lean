import Testimony.Wire

/-!
# `Testimony.Daemon.Handle`: `Testimony.handle`

What `handle` in `go/testimonyd/internal/socket/daemon.go` does with a new connection: write
the greeting, read the fanout index, pass the descriptor of that socket, and hand the
connection over to the socket's goroutines.
-/

set_option autoImplicit false

namespace Testimony.Daemon

open Lib.BigEndian Wire

/-- The fields of a `SocketConfig` that `handle` sends. -/
structure SocketConfig where
  blockSize : Int
  numBlocks : Int

/-- The bytes of the five writes, for `fanoutSize` sockets. -/
def greeting (fanoutSize : Nat) (conf : SocketConfig) : Except SendError (List UInt8) := do
  let size ← sendUint32 typeFanoutSize (UInt32.ofNat fanoutSize)
  let blockSize ← sendUint32 typeBlockSize (UInt32.ofInt conf.blockSize)
  let numBlocks ← sendUint32 typeNumBlocks (UInt32.ofInt conf.numBlocks)
  let wait ← sendType typeWaitingForFanoutIndex
  return protocolVersion :: (size ++ blockSize ++ numBlocks ++ wait)

/-- Where `handle` stands. -/
inductive HandlePc where
  /-- Writing the greeting, with the bytes still to be written. -/
  | greet (rest : List UInt8)
  /-- In `io.ReadFull(c, fanoutMsg[:])`, with what it has read. -/
  | readFanout (fanoutMsg : List UInt8)
  /-- Before `c.WriteMsgUnix` with the descriptor `fd`. -/
  | writeFd (fd : Nat)
  /-- Before `sock.newConns <- c`. -/
  | handOff
  /-- The socket has the connection. -/
  | served
  /-- `handle` has returned early and closed the connection. -/
  | closed
  deriving DecidableEq

/-- `handle` at its first write. A greeting that cannot be sent ends it. -/
def HandlePc.start (fds : List Nat) (conf : SocketConfig) : HandlePc :=
  match greeting fds.length conf with
  | .ok bytes => .greet bytes
  | .error _ => .closed

/-- What `handle` does with the eight bytes of the fanout message. `fds` are the descriptors of
`socks`. -/
def afterFanoutMsg (fds : List Nat) (fanoutMsg : List UInt8) : HandlePc :=
  let valA := uint32 (fanoutMsg.take 4)
  let valB := uint32 (fanoutMsg.drop 4)
  -- The type and the length at once: any other head is an error.
  if valA ≠ toTL typeFanoutIndex 4 then .closed
  else
    match fds[valB.toNat]? with
    | some fd => .writeFd fd
    | none => .closed

end Testimony.Daemon
