import Testimony.Lib.Reader
import Testimony.Wire

/-!
# `Testimony.GoClient.Conn`: the Go client

`Connect` and `Conn.Block` of `go/testimony/testimony.go`. The Go client has no buffer of its
own: `io.ReadFull` asks the kernel for exactly the bytes it needs, in as many reads as it
takes, and the runtime repeats a read that a signal interrupted.

`int` is 64 bits wide here, as on the platforms with large rings, so the conversion of a
`uint32` keeps its value.
-/

set_option autoImplicit false

namespace Testimony.GoClient

open Lib Lib.BigEndian Wire

/-- The errors of `io.ReadFull`. -/
inductive ReadError where
  | eof
  | unexpectedEOF
  | sys (errno : Nat)
  deriving DecidableEq

/-- Why a call returns no value: it returns an error, or it waits. -/
inductive Stop (M : Type) where
  | fail (err : M)
  | blocked
  deriving DecidableEq

/-- The loop of `io.ReadFull`, with `n` bytes to go. Each `Read` returns at least one. -/
def readLoop : Nat → Nat → List UInt8 → EStateM (Stop ReadError) (List Seg) (List UInt8)
  | 0, _, out => pure out
  | rounds + 1, n, out => fun segs =>
      if n = 0 then .ok out segs
      else
        match Seg.fetch n segs with
        | .got bytes segs => readLoop rounds (n - bytes.length) (out ++ bytes) segs
        | .stop .blocked => .error .blocked segs
        -- `io.EOF` if nothing was read, and `io.ErrUnexpectedEOF` otherwise.
        | .stop .eof => .error (.fail (if out = [] then .eof else .unexpectedEOF)) segs
        | .stop (.error e) => .error (.fail (.sys e)) segs

/-- `io.ReadFull` into a buffer of `n` bytes. -/
def readFull (n : Nat) : EStateM (Stop ReadError) (List Seg) (List UInt8) := readLoop n n []

/-- Wrap the error of a read, as `fmt.Errorf` does. -/
def wrap {M α : Type} (msg : ReadError → M) (f : EStateM (Stop ReadError) (List Seg) α) :
    EStateM (Stop M) (List Seg) α := fun segs =>
  match f segs with
  | .ok a segs => .ok a segs
  | .error (.fail e) segs => .error (.fail (msg e)) segs
  | .error .blocked segs => .error .blocked segs

/-- The part of `Conn` that `Connect` sets. -/
structure Conn where
  numBlocks : Int
  blockSize : Int
  fanoutSize : Int
  deriving DecidableEq

/-- The errors of `Connect`. -/
inductive ConnectError where
  | initialByte (err : ReadError)
  | protocolMismatch (want got : UInt8)
  | initialTLV (err : ReadError)
  | badInitialType (typ : MsgType)
  | initialVal (err : ReadError)
  | invalidFanoutSizeLength (length : Nat)
  | invalidBlockSizeLength (length : Nat)
  | invalidNumBlocksLength (length : Nat)
  | missing
  deriving DecidableEq

/-- The loop of `Connect`. Each round reads at least four bytes. -/
def tlvLoop : Nat → Conn → EStateM (Stop ConnectError) (List Seg) Conn
  | 0, _ => throw .blocked
  | rounds + 1, t => do
      let buf ← wrap .initialTLV (readFull 4)
      let (typ, length) := tlFrom (uint32 buf)
      if typeOf typ ≠ typeServerToClient then
        throw (.fail (.badInitialType typ))
      let val ← wrap .initialVal (readFull length)
      -- The server has sent everything and waits.
      if typ = typeWaitingForFanoutIndex then
        return t
      else if typ = typeFanoutSize then
        if length ≠ 4 then
          throw (.fail (.invalidFanoutSizeLength length))
        tlvLoop rounds { t with fanoutSize := (uint32 val).toNat }
      else if typ = typeBlockSize then
        if length ≠ 4 then
          throw (.fail (.invalidBlockSizeLength length))
        tlvLoop rounds { t with blockSize := (uint32 val).toNat }
      else if typ = typeNumBlocks then
        if length ≠ 4 then
          throw (.fail (.invalidNumBlocksLength length))
        tlvLoop rounds { t with numBlocks := (uint32 val).toNat }
      else
        tlvLoop rounds t

/-- `Connect`, once the socket is connected. -/
def connect : EStateM (Stop ConnectError) (List Seg) Conn := do
  let version := (← wrap .initialByte (readFull 1)).headD 0
  if version ≠ protocolVersion then
    throw (.fail (.protocolMismatch protocolVersion version))
  let t ← tlvLoop ((Source.pending (← get)).length + 1) ⟨0, 0, 0⟩
  if t.fanoutSize ≤ 0 ∨ t.blockSize ≤ 0 ∨ t.numBlocks ≤ 0 then
    throw (.fail .missing)
  return t

/-- The errors of `Block`. -/
inductive BlockError where
  | readingIndex (err : ReadError)
  | readingValue (typ : MsgType) (length : Nat) (err : ReadError)
  | notServerToClient (typ : MsgType)
  | invalidIndex (idx : Nat)
  deriving DecidableEq

/-- The loop of `Block`: skip TLVs up to the next index. -/
def indexLoop : Nat → EStateM (Stop BlockError) (List Seg) Nat
  | 0 => throw .blocked
  | rounds + 1 => do
      let num := uint32 (← wrap .readingIndex (readFull 4))
      let (typ, length) := tlFrom num
      if typeOf typ = typeBlockIndex then
        return num.toNat
      else if typeOf typ = typeServerToClient then
        let _ ← wrap (.readingValue typ length) (readFull length)
        indexLoop rounds
      else
        throw (.fail (.notServerToClient typ))

/-- `Conn.Block`. The result is the index of the block. -/
def Conn.block (t : Conn) : EStateM (Stop BlockError) (List Seg) Nat := do
  let idx ← indexLoop ((Source.pending (← get)).length + 1)
  if t.numBlocks ≤ idx then
    throw (.fail (.invalidIndex idx))
  return idx

end Testimony.GoClient
