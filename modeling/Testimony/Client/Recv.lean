import Testimony.Lib.BigEndian
import Testimony.Lib.Reader
import Testimony.Wire

/-!
# `Testimony.Client.Recv`: how the C client reads

`recv_t` and its callers in `c/testimony.c`. The client reads ahead: `recv_t` asks the kernel
for up to `TESTIMONY_BUF_SIZE` bytes at a time, keeps what it does not need between
`buf_start` and `buf_limit`, and serves later calls from there. `Sock.buf` is that stretch,
and `Sock.segs` is what the kernel still has.

A function that returns a negative number has set `errno`. A call that waits for bytes that
never come does not return: `RecvStop.blocked`. `TERR` keeps `errno` and writes a message into
`errbuf`. `Stop.fail` carries both, the message as a constructor with the arguments of its
format string.
-/

set_option autoImplicit false

namespace Testimony.Client

open Lib Lib.BigEndian

/-- The values of `errno` the client sets itself, and those of failed system calls. -/
inductive Errno where
  | ECANCELED
  | EPROTONOSUPPORT
  | EINVAL
  | EIO
  | sys (errno : Nat)
  deriving DecidableEq, Repr

/-- `TESTIMONY_BUF_SIZE`. -/
def bufSize : Nat := 256

/-- The connection to the server: `t->sock_fd` and the read-ahead buffer. -/
structure Sock where
  buf : List UInt8
  segs : List Seg

/-- The client reads the buffered bytes and then what the kernel has. -/
instance : Source Sock where
  pending t := t.buf ++ Seg.pending t.segs
  ending t := Seg.ending t.segs

/-- More has come to the kernel's side. -/
def Sock.push (t : Sock) (segs : List Seg) : Sock := { t with segs := t.segs ++ segs }

/-- Why a read does not return a value. -/
inductive RecvStop where
  | errno (e : Errno)
  | blocked
  deriving DecidableEq

/-- What `recv_t` makes of the end of the stream. -/
def RecvStop.ofEnd : End → RecvStop
  | .blocked => .blocked
  | .eof => .errno .ECANCELED
  | .error e => .errno (.sys e)

/-- A function of the client that reads from the socket: it returns a value or stops, and leaves the
socket behind. -/
abbrev Read := EStateM RecvStop Sock

/-- The inner loop of `recv_t`: fill the empty buffer. -/
def refill : Read Unit := fun t =>
  match Seg.fetch bufSize t.segs with
  | .got bytes segs => .ok () ⟨bytes, segs⟩
  | .stop e => .error (.ofEnd e) ⟨[], t.segs⟩

/-- The outer loop of `recv_t`, with `s` bytes to go. Each round copies at least one, so `s`
rounds are enough. -/
def recvLoop : Nat → Nat → List UInt8 → Read (List UInt8)
  | 0, _, out => pure out
  | rounds + 1, s, out => do
      if s = 0 then
        return out
      if (← get).buf = [] then
        refill
      let t ← get
      -- What is left in the buffer is for the next call.
      let toCopy := min s t.buf.length
      set { t with buf := t.buf.drop toCopy }
      recvLoop rounds (s - toCopy) (out ++ t.buf.take toCopy)

/-- `recv_t`: read exactly `s` bytes. -/
def recvT (s : Nat) : Read (List UInt8) := recvLoop s s []

/-- `recv_be_32`. -/
def recvBe32 : Read UInt32 := do
  let msg ← recvT 4
  return msg.foldl (fun out b => (out <<< 8) + b.toUInt32) 0

/-- The loop of `discard_bytes`. Each round reads at least one byte. -/
def discardLoop : Nat → Nat → Read Unit
  | 0, _ => pure ()
  | rounds + 1, n => do
      if n = 0 then
        return ()
      let len := if n > bufSize then bufSize else n
      let _ ← recvT len
      discardLoop rounds (n - len)

/-- `discard_bytes`: read `n` bytes and forget them. -/
def discardBytes (n : Nat) : Read Unit := discardLoop n n

/-- `protocol_type`. -/
def protocolType (x : UInt32) : UInt32 :=
  if x &&& 0x80000000 = 0 then Wire.typeBlockIndex.toUInt32 else x >>> 16

/-- `protocol_length`. -/
def protocolLength (x : UInt32) : UInt32 :=
  if x &&& 0x80000000 = 0 then 0 else x &&& 0xFFFF

/-- `set_be_32`: the four bytes of `x`. -/
def setBe32 (x : UInt32) : List UInt8 :=
  [(x >>> 24).toUInt8, (x >>> 16).toUInt8, (x >>> 8).toUInt8, x.toUInt8]

/-! ### Error messages -/

/-- Why an API call does not succeed: it returns `-errno` with a message in `errbuf`, or it
does not return. -/
inductive Stop (M : Type) where
  | fail (errno : Errno) (msg : M)
  | blocked
  deriving DecidableEq

/-- `TERR(msg)` after a read that returned a negative number. -/
def terr {M α : Type} (msg : M) (f : Read α) : EStateM (Stop M) Sock α := fun t =>
  match f t with
  | .ok a t => .ok a t
  | .error (.errno e) t => .error (.fail e msg) t
  | .error .blocked t => .error .blocked t

end Testimony.Client
