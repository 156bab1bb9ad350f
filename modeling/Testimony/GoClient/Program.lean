import Testimony.GoClient.Init
import Testimony.Lib.Transition

/-!
# `Testimony.GoClient.Program`: a program that uses the Go client

`Block.Return` of `go/testimony/testimony.go`, and a program that calls `Conn.Block` and uses what
it returns in any way: it calls `Next`, `Packet`, `PacketData` and `Return` on any of its blocks, in
any order, as often as it likes, and also on a block it has returned. The C client counts the
packets of a block and refuses a second return. The Go client counts nothing, and `Return` sets
fields of its block to `nil` instead.

The program keeps the pointers that `Conn.Block` returns and does not copy what is behind them. A
panic ends it. Calls on different blocks have nothing in common but the connection, on which each
`Return` makes a single `Write`, so a step is a whole call.

The ring is read anew in each call, and what it holds is up to the environment.
-/

set_option autoImplicit false

namespace Testimony.GoClient

open Lib Tpacket

/-! ### One block -/

/-- A `Block` that the program has a pointer to. `t` says that its pointer to the connection is
not `nil`. -/
structure Lease where
  t : Bool
  i : Nat
  block : Block

/-- `nil`. What `mem` is good for are the pointers that still point into the block. -/
def Slice.nil (mem : Mem) : Slice := ⟨mem, 0, 0, Nat.le_refl 0⟩

/-- The block, with `mem` in its part of the ring. -/
def Block.withMem (b : Block) (mem : Mem) : Block := { b with B := { b.B with mem := mem } }

/-- A call on a block. The argument of `ret` is the error of `Write`. -/
inductive Use where
  | next
  | packet
  | packetData
  | ret (errno : Option Nat)
  deriving DecidableEq

/-- What the call returns. -/
inductive Answer where
  | next (more : Bool)
  | packet (pkt : Option Nat)
  | packetData (data : Option (List UInt8))
  /-- "error writing index: %v" -/
  | ret (errno : Option Nat)
  deriving DecidableEq

/-- `Block.Return`, with the error of `Write`. The result says what it returns and the word it
writes. A `Write` that fails writes nothing. -/
def Lease.ret (b : Lease) (errno : Option Nat) : Except Panic (Option Nat × List UInt32 × Lease) :=
  -- `b.t.c`
  if b.t then
    match errno with
    | some e => .ok (some e, [], b)
    | none =>
        .ok (none, [UInt32.ofNat b.i],
          { t := false, i := 0, block := { b.block with B := .nil b.block.B.mem } })
  else .error .nilDereference

/-- A call on a block, with `mem` in its part of the ring. The result says what it returns and
which words it writes. -/
def Lease.use (b : Lease) (mem : Mem) : Use → Except Panic (Answer × List UInt32 × Lease)
  | .next => do
      let (more, block) ← (b.block.withMem mem).next
      return (.next more, [], { b with block := block })
  | .packet => .ok (.packet b.block.packet, [], b)
  | .packetData => do
      return (.packetData (← (b.block.withMem mem).packetData), [], b)
  | .ret errno => do
      let (err, sent, b) ← b.ret errno
      return (.ret err, sent, b)

/-- Calls on one block, up to the first that panics: what they return and what they write. -/
def Lease.run (b : Lease) : List (Mem × Use) → List Answer × List UInt32
  | [] => ([], [])
  | (mem, u) :: us =>
      match b.use mem u with
      | .ok (a, sent, b) => ((a :: (b.run us).1), sent ++ (b.run us).2)
      | .error _ => ([], [])

/-! ### The program -/

/-- The connection, what it still has to read, and the blocks the program has got. `given` is the
history of their indexes, and `failures` that of the errors of `Conn.Block`. -/
structure Program where
  t : Ready
  segs : List Seg
  leases : List Lease
  given : List Nat
  failures : List BlockError
  panicked : Bool

/-- A program that has called `Connect` and `Init`. -/
def Program.start (t : Ready) : Program where
  t := t
  segs := []
  leases := []
  given := []
  failures := []
  panicked := false

/-- What the program does next. -/
inductive ProgramCall where
  | block
  | use (j : Nat) (mem : Mem) (u : Use)

/-- One call of the program, and the words it writes. -/
def Program.step (p : Program) (call : ProgramCall) : Option (Program × List UInt32) :=
  if p.panicked then none
  else
    match call with
    | .block =>
        match p.t.block p.segs with
        | .ok (some b) segs =>
            some ({ p with
              segs := segs
              leases := p.leases ++ [⟨true, b.i, .fresh b.B.toSlice⟩]
              given := p.given ++ [b.i] }, [])
        | .ok none segs => some ({ p with segs := segs, panicked := true }, [])
        | .error (.fail e) segs =>
            some ({ p with segs := segs, failures := p.failures ++ [e] }, [])
        | .error .blocked _ => none
    | .use j mem u =>
        match p.leases[j]? with
        | none => none
        | some b =>
            match b.use mem u with
            | .ok (_, sent, b) => some ({ p with leases := p.leases.set j b }, sent)
            | .error _ => some ({ p with panicked := true }, [])

end Testimony.GoClient
