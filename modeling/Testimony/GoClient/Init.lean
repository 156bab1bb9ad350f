import Testimony.GoClient.Conn
import Testimony.GoClient.Iter
import Testimony.Lib.GoInt

/-!
# `Testimony.GoClient.Init`: the ring of the Go client

`Conn.Init` of `go/testimony/testimony.go`, and the whole of `Conn.Block`, which slices the ring.
Sums and products of `int`s wrap around at 64 bits. What the kernel answers is an `InitEnv`, any
of it.
-/

set_option autoImplicit false

namespace Testimony.GoClient

open Lib Tpacket

/-- The errors of `Init`. -/
inductive InitError where
  /-- "error writing fanout index: %v" -/
  | writing (errno : Nat)
  /-- "error reading fd: %v" -/
  | reading (errno : Nat)
  /-- "got wrong number of initial bytes: %d" -/
  | initialBytes (n : Nat)
  /-- "got too many oob bytes: %d" -/
  | oobBytes (n2 : Nat)
  /-- "could not parse socket control msg: %v" -/
  | controlMsg (errno : Nat)
  /-- "wrong number of control messages: %d" -/
  | controlMsgs (n : Nat)
  /-- "could not parse unix rights: %v" -/
  | rights (errno : Nat)
  /-- "wrong number of fds: %d" -/
  | fds (n : Nat)
  /-- "mmap failed: %v" -/
  | mmap (errno : Nat)
  deriving DecidableEq

/-- What `ReadMsgUnix` returns: the bytes it read, the bytes of control data, and the messages
`ParseSocketControlMessage` makes of them, each as `ParseUnixRights` reads it. -/
structure ReadMsg where
  n : Nat
  n2 : Nat
  msgs : Except Nat (List (Except Nat (List Nat)))

/-- What `Init` meets. -/
structure InitEnv where
  send : Option Nat
  readMsg : Except Nat ReadMsg
  mmap : Except Nat Mem

/-- `syscall.Mmap`. A length that is not positive is `EINVAL` before the kernel is asked, and the
slice has exactly the length that was asked for. -/
def mmap (answer : Except Nat Mem) (length : Int) : Except Nat Slice :=
  if length ≤ 0 then .error 22
  else answer.map fun mem => ⟨mem, length.toNat, length.toNat, Nat.le_refl _⟩

/-- A `Conn` that `Init` has returned. -/
structure Ready extends Conn where
  fd : Nat
  ring : Slice

/-- The descriptor in the server's message. -/
def receiveFd (msg : ReadMsg) : Except InitError Nat := do
  if msg.n ≠ 1 then throw (.initialBytes msg.n)
  -- `len(oob)`
  if 1024 ≤ msg.n2 then throw (.oobBytes msg.n2)
  match msg.msgs with
  | .error e => throw (.controlMsg e)
  | .ok [.ok [fd]] => return fd
  | .ok [.ok fds] => throw (.fds fds.length)
  | .ok [.error e] => throw (.rights e)
  | .ok msgs => throw (.controlMsgs msgs.length)

/-- `Conn.Init`, once the fanout index is chosen. -/
def Conn.init (t : Conn) (env : InitEnv) : Except InitError Ready := do
  if let some e := env.send then throw (.writing e)
  let msg ← env.readMsg.mapError .reading
  let fd ← receiveFd msg
  let ring ← (mmap env.mmap (mulInt t.blockSize t.numBlocks)).mapError .mmap
  return ⟨t, fd, ring⟩

/-! ### `Conn.Block` -/

/-- A part of the ring, as a slice expression makes it. -/
structure Window (ring : Slice) where
  low : Nat
  high : Nat
  low_le_high : low ≤ high
  high_le_cap : high ≤ ring.cap

/-- The part as a slice of its own. -/
def Window.toSlice {ring : Slice} (w : Window ring) : Slice where
  mem := fun a => ring.mem (w.low + a)
  len := w.high - w.low
  cap := ring.cap - w.low
  len_le_cap := Nat.sub_le_sub_right w.high_le_cap w.low

/-- `b[low:high]`. The result is `none` if it panics. -/
def Slice.window (b : Slice) (low high : Int) : Option (Window b) :=
  if h : 0 ≤ low ∧ low ≤ high ∧ high ≤ b.cap then
    some ⟨low.toNat, high.toNat, by omega, by omega⟩
  else none

/-- A `Block` as `Conn.Block` returns it. -/
structure RingBlock (ring : Slice) where
  i : Nat
  B : Window ring

/-- `Conn.Block`. The result is `none` if the slice expression panics. -/
def Ready.block (t : Ready) : EStateM (Stop BlockError) (List Seg) (Option (RingBlock t.ring)) := do
  let idx ← t.toConn.block
  let start := mulInt idx t.blockSize
  return (t.ring.window start (addInt start t.blockSize)).map fun B => ⟨idx, B⟩

end Testimony.GoClient
