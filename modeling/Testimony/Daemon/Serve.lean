import Testimony.Daemon.Config
import Testimony.GoClient.Conn

/-!
# `Testimony.Daemon.Serve`: from the configuration file to a connection

What `main` in `go/testimonyd/daemon.go` does with the configuration before `RunTestimony`, and
`Testimony.handle` as one call, from the new connection to its end. `Testimony.Daemon.Handle` has
the same function cut into the steps that a client can see.

Everything the client and the kernel do to the call is a `Behaviour`. What the call does to the
connection is a list of events, and the deferred `c.Close()` is one of them.
-/

set_option autoImplicit false

namespace Testimony.Daemon

open Lib Lib.BigEndian Wire

/-! ### `main` -/

/-- `FanoutSize` has a default. -/
def ConfigEntry.withDefault (sc : ConfigEntry) : ConfigEntry :=
  if sc.fanoutSize = 0 then { sc with fanoutSize := 1 } else sc

/-- `main`, once the configuration is read. -/
def daemonMain (env : Env) (t : List ConfigEntry) : Except Fatal (List (List Socket)) :=
  runTestimony env (t.map ConfigEntry.withDefault)

/-! ### `handle` -/

/-- What a connection meets: the error of the first, second, ... write, if it fails, what there is
to read, and what `WriteMsgUnix` returns. -/
structure Behaviour where
  write : Nat → Option Nat
  segs : List Seg
  writeMsg : Except Nat (Nat × Nat)

/-- What `handle` does to the connection. The index is that of a socket in `socks`. -/
inductive HandleEvent where
  | write (bytes : List UInt8)
  | sendFd (k fd : Nat)
  | handOff (k : Nat)
  | close
  deriving DecidableEq

/-- The messages `handle` logs when it gives up. -/
inductive HandleLog where
  /-- "new conn %q failed to write version: %v" -/
  | version (errno : Nat)
  /-- "new conn %q failed to send fanout size: %v" -/
  | fanoutSize
  /-- "new conn %q failed to send block size: %v" -/
  | blockSize
  /-- "new conn %q failed to send number of blocks: %v" -/
  | numBlocks
  /-- "new conn %q failed to send wait: %v" -/
  | wait
  /-- "new conn %q closed early, probably just gathering connection data" -/
  | closedEarly
  /-- "new conn %q failed to read fanout index: %v" -/
  | fanoutIndex (err : GoClient.ReadError)
  /-- "new conn %q got unexpected type/value waiting for fanout message: %d/%d" -/
  | unexpected (typ length : UInt32)
  /-- "new conn %q invalid index %v" -/
  | invalidIndex (idx : Nat)
  /-- "new conn %q failed to send file descriptor: %v" -/
  | fileDescriptor
  deriving DecidableEq

/-- Why `handle` does not come to its end: it returns, an index is out of range, or it waits. -/
inductive HandleStop where
  | returns (log : HandleLog)
  | panics
  | waits
  deriving DecidableEq

/-- A part of `handle`: it goes on with a value or stops, and adds to the events so far. -/
abbrev Handling := EStateM HandleStop (List HandleEvent)

/-- `c.Write` as the `i`-th write. -/
def writeConn (client : Behaviour) (i : Nat) (bytes : List UInt8) (log : Nat → HandleLog) :
    Handling Unit := fun events =>
  match client.write i with
  | none => .ok () (events ++ [.write bytes])
  | some e => .error (.returns (log e)) events

/-- `protocol.SendUint32` or `protocol.SendType` as the `i`-th write. -/
def sendConn (client : Behaviour) (i : Nat) (msg : Except SendError (List UInt8))
    (log : HandleLog) : Handling Unit :=
  match msg with
  | .ok bytes => writeConn client i bytes fun _ => log
  | .error _ => throw (.returns log)

/-- `io.ReadFull(c, fanoutMsg[:])` -/
def readFanoutMsg (client : Behaviour) : Handling (List UInt8) :=
  match GoClient.readFull 8 client.segs with
  | .ok fanoutMsg _ => return fanoutMsg
  | .error .blocked _ => throw .waits
  | .error (.fail .eof) _ => throw (.returns .closedEarly)
  | .error (.fail err) _ => throw (.returns (.fanoutIndex err))

/-- The index in the fanout message, for `n` sockets. -/
def fanoutIndex (n : Nat) (fanoutMsg : List UInt8) : Handling Nat := do
  let valA := uint32 (fanoutMsg.take 4)
  let valB := uint32 (fanoutMsg.drop 4)
  if valA ≠ toTL typeFanoutIndex 4 then
    throw (.returns (.unexpected (valA >>> 16) (valA &&& 0xFFFF)))
  if n ≤ valB.toNat then throw (.returns (.invalidIndex valB.toNat))
  return valB.toNat

/-- Pass the descriptor of a socket, and the connection to the socket. The control data is one
`SCM_RIGHTS` message with one descriptor. -/
def passOn (client : Behaviour) (k : Nat) (sock : Socket) : Handling Unit := fun events =>
  if client.writeMsg = .ok (1, 24) then .ok () (events ++ [.sendFd k sock.fd, .handOff k])
  else .error (.returns .fileDescriptor) events

/-- The writes and the read of `handle` behind `socks[0]`. -/
def greetAndRead (n : Nat) (conf : SocketConfig) (client : Behaviour) : Handling Nat := do
  sendConn client 1 (sendUint32 typeFanoutSize (UInt32.ofNat n)) .fanoutSize
  sendConn client 2 (sendUint32 typeBlockSize (UInt32.ofInt conf.blockSize)) .blockSize
  sendConn client 3 (sendUint32 typeNumBlocks (UInt32.ofInt conf.numBlocks)) .numBlocks
  sendConn client 4 (sendType typeWaitingForFanoutIndex) .wait
  fanoutIndex n (← readFanoutMsg client)

/-- `handle` without its deferred function. -/
def handleBody (socks : List Socket) (client : Behaviour) : Handling Unit := do
  writeConn client 0 [protocolVersion] .version
  match socks with
  | [] => throw .panics
  | first :: _ =>
      let idx ← greetAndRead socks.length first.conf.toSocketConfig client
      match socks[idx]? with
      | none => throw .panics
      | some sock => passOn client idx sock

/-- How a call of `handle` ends. -/
inductive HandleEnd where
  | returned
  | panicked
  | waiting
  deriving DecidableEq

/-- What `handle` has done for a client, and how it has ended. -/
structure HandleResult where
  events : List HandleEvent
  ending : HandleEnd
  deriving DecidableEq

/-- `handle`. The deferred function closes the connection, unless it was given away. -/
def handle (socks : List Socket) (client : Behaviour) : HandleResult :=
  match handleBody socks client [] with
  | .ok _ events => ⟨events, .returned⟩
  | .error (.returns _) events => ⟨events ++ [.close], .returned⟩
  | .error .panics events => ⟨events ++ [.close], .panicked⟩
  | .error .waits events => ⟨events, .waiting⟩

end Testimony.Daemon
