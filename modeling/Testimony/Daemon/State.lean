import Mathlib.Data.Finset.Basic
import Mathlib.Logic.Function.Basic
import Testimony.Lib.Channel
import Testimony.Wire

/-!
# `Testimony.Daemon.State`: the state of one daemon socket

One `socket` of `go/testimonyd/internal/socket/socket.go` runs a goroutine `getNewBlocks`,
a goroutine `socket.run`, and for each client connection the two goroutines `conn.run` and
`conn.handleReads`. They share the blocks of the ring with each other and with the kernel.
This file declares what they share and where each of them stands.

A program counter names the *next* access of its goroutine to something another goroutine
can see: a channel operation, an atomic operation on a block's count, a load or store of
`block_status`, a read or write on the client's socket. Work on local variables belongs to
the access before it. In particular `unref` is two steps, the atomic add and then the store
of `clear`, and `ready` is two steps, the atomic load and then the load of `block_status`.

`r` is an `int32` in the source and an `Int` here. `count_fits_int32` says how many
connections it takes to tell the two apart.

The log is a history variable: no step reads it. It records what the ordering results talk
about, oldest event first.
-/

set_option autoImplicit false

namespace Testimony.Daemon

open Lib

/-- The part of a `SocketConfig` the socket's goroutines read, for a ring that exists:
`newSocket` only returns once the kernel has set up and mapped at least one block. -/
structure Conf where
  numBlocks : Nat
  numBlocks_pos : 0 < numBlocks

/-- A block, by its position in `s.blocks`. -/
abbrev Conf.Index (k : Conf) : Type := Fin k.numBlocks

/-- `blockIndex := 0`. -/
def Conf.first (k : Conf) : k.Index := ⟨0, k.numBlocks_pos⟩

/-- `blockIndex = (blockIndex + 1) % s.conf.NumBlocks`. -/
def Conf.next (k : Conf) (b : k.Index) : k.Index :=
  ⟨(b.val + 1) % k.numBlocks, Nat.mod_lt _ k.numBlocks_pos⟩

/-- Connections are numbered in the order `addNewConn` makes them. -/
abbrev ConnId := Nat

/-- The ways the process can die. `waitForBlocks` is the `log.Panicf` of `getNewBlocks`,
`invalidUnref` the panic in `unref`, `alreadyOutstanding` the `log.Fatalf` of `conn.run`.
The others are panics of the Go runtime: a field of a nil block, a slice index out of
range, a send on or a close of a closed channel. -/
inductive Panic where
  | waitForBlocks (errno : Nat)
  | invalidUnref (b : Nat) (refs : Int)
  | alreadyOutstanding (c : ConnId) (b : Nat)
  | nilBlock
  | indexOutOfRange (c : ConnId) (i : Nat)
  | sendOnClosed
  | closeOfClosed
  deriving DecidableEq, Repr

/-- What the history records. `take` is `socket.run` receiving from `s.newBlocks`, `mark` is
`conn.run` entering a block it took from `c.newBlocks` as outstanding, `accept` is
`conn.run` taking a return from the client. -/
inductive Event (k : Conf) where
  | fill (b : k.Index)
  | dispatch (b : k.Index)
  | take (b : k.Index)
  | clear (b : k.Index)
  | register (c : ConnId)
  | mark (c : ConnId) (b : k.Index)
  | wrote (c : ConnId) (bytes : List UInt8)
  | accept (c : ConnId) (b : k.Index)

/-- Where `getNewBlocks` stands, with its current block. -/
inductive WatcherPc (k : Conf) where
  /-- In `b.ready()`, before the load of `b.r`. -/
  | loadCount (b : k.Index)
  /-- In `b.ready()`, after `b.r` was zero, before the load of `block_status`. -/
  | loadStatus (b : k.Index)
  /-- `b.ready()` was false: in `C.WaitForBlocks`. -/
  | wait (b : k.Index)
  /-- `b.ready()` was true: before the atomic add of `b.ref()`. -/
  | ref (b : k.Index)
  /-- Before `s.newBlocks <- b`. -/
  | send (b : k.Index)

/-- Where `socket.run` stands. `todo` holds the connections the `range` over `currentConns`
has not visited. In `unref` and `clear`, `some todo` is the default branch of the
non-blocking send and `none` is the call after the loop. -/
inductive RunPc (k : Conf) where
  | select
  /-- A connection came in on `oldConns`: before `close(c.newBlocks)`. -/
  | closeNewBlocks (c : ConnId)
  /-- Before `delete(s.currentConns, c)`. -/
  | delete (c : ConnId)
  /-- At the head of the `range` loop. -/
  | fanout (b : k.Index) (todo : Finset ConnId)
  /-- `b.ref()` is done for `c`: before the non-blocking send. -/
  | trySend (b : k.Index) (c : ConnId) (todo : Finset ConnId)
  /-- Before the atomic add of `b.unref()`. -/
  | unref (b : k.Index) (todo : Option (Finset ConnId))
  /-- The count reached zero: before the store of `b.clear()`. -/
  | clear (b : k.Index) (todo : Option (Finset ConnId))

/-- Where `socket.run` goes on after an `unref`. -/
def RunPc.resume {k : Conf} (b : k.Index) : Option (Finset ConnId) → RunPc k
  | some todo => .fanout b todo
  | none => .select

/-- Where `conn.run` goes on after an `unref`: in the main loop, in the loop that drains
`c.newBlocks`, or in the loop over `outstanding`, at the given position. -/
inductive Resume where
  | select
  | drainNew
  | sweep (i : Nat)
  deriving DecidableEq

/-- Where `conn.run` stands. -/
inductive ConnPc (k : Conf) where
  /-- The `select` of the main loop. -/
  | select
  /-- A block was received: before `outstanding[b.index]` is looked at. -/
  | record (b : k.Index)
  /-- The inner `select`, which batches more blocks. -/
  | batch
  /-- In `c.c.Write(out)`, with the bytes still to be written. -/
  | write (rest : List UInt8)
  | unref (b : k.Index) (next : Resume)
  | clear (b : k.Index) (next : Resume)
  /-- The main loop ended: before `c.c.Close()`. -/
  | close
  /-- Before `c.s.oldConns <- c`. -/
  | sendOld
  /-- `for b := range c.newBlocks`. -/
  | drainNew
  /-- `for _ = range c.oldBlocks`. -/
  | drainOld
  /-- `for i, t := range outstanding`, before entry `i`. -/
  | sweep (i : Nat)
  | returned
  deriving DecidableEq

/-- The program counter a `Resume` stands for. -/
def Resume.pc {k : Conf} : Resume → ConnPc k
  | .select => .select
  | .drainNew => .drainNew
  | .sweep i => .sweep i

/-- Where `handleReads` stands. -/
inductive ReadsPc where
  /-- Before `c.c.Read(buf[:])`. -/
  | read
  /-- In `io.ReadFull(c.c, val)`, with the number of value bytes still missing. -/
  | value (missing : Nat)
  /-- Before `c.oldBlocks <- v`. -/
  | post (v : Nat)
  /-- Before the deferred `close(c.oldBlocks)`. -/
  | closeOldBlocks
  | done
  deriving DecidableEq

/-- A `conn` with its two goroutines. `outstanding` is true where the source holds a
non-zero time. -/
structure Conn (k : Conf) where
  newBlocks : Chan k.Index k.numBlocks
  oldBlocks : Chan Nat k.numBlocks
  pc : ConnPc k
  reads : ReadsPc
  outstanding : k.Index → Bool
  out : List UInt8
  /-- `c.c.Close()` was called. -/
  closed : Bool

/-- The connection `addNewConn` makes, with both goroutines at their first access. -/
def Conn.fresh (k : Conf) : Conn k where
  newBlocks := Chan.make
  oldBlocks := Chan.make
  pc := .select
  reads := .read
  outstanding := fun _ => false
  out := []
  closed := false

/-- The state of one socket. Connections from `numConns` on do not exist yet. -/
structure State (k : Conf) where
  r : k.Index → Int
  blockStatus : k.Index → UInt32
  watcher : WatcherPc k
  newBlocks : Chan k.Index k.numBlocks
  run : RunPc k
  currentConns : Finset ConnId
  numConns : Nat
  conn : ConnId → Conn k
  panic : Option Panic
  log : List (Event k)

/-- The state after `newSocket`: every count is zero and every block belongs to the
kernel. -/
def State.initial (k : Conf) : State k where
  r := fun _ => 0
  blockStatus := fun _ => 0
  watcher := .loadCount k.first
  newBlocks := Chan.make
  run := .select
  currentConns := ∅
  numConns := 0
  conn := fun _ => Conn.fresh k
  panic := none
  log := []

end Testimony.Daemon
