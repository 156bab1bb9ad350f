import Mathlib.Data.Int.Notation

/-!
# `Testimony.Daemon.AFPacket`: setting up an `AF_PACKET` socket

`AFPacket` of `go/testimonyd/internal/socket/socket.c`: create the socket, lock a filter on it,
ask the kernel for a ring, map it, bind the socket to its interface and let it join its fanout
group. A failure jumps to one of two labels, which undo what was done.

`Kernel` holds the answers of the system calls, each made at most once. A failing call leaves a
non-zero `errno`, a successful one leaves `errno` alone. The result keeps the list of calls with
their arguments.

The arguments are C `int`s. `block_size * block_nr` at the label `fail2` is a product of `int`s,
taken modulo `2 ^ 32` here.
-/

set_option autoImplicit false

namespace Testimony.Daemon

/-- The `errno` of a failed system call. -/
structure SysErrno where
  val : Nat
  ne_zero : val ≠ 0
  deriving DecidableEq

/-- `EINVAL`. -/
def eINVAL : SysErrno := ⟨22, by decide⟩

/-- `struct sock_filter`. -/
structure SockFilter where
  code : UInt16
  jt : UInt8
  jf : UInt8
  k : UInt32
  deriving DecidableEq

/-- `struct tpacket_req3`, as far as it is set. -/
structure TpacketReq3 where
  blockSize : UInt32
  blockNr : UInt32
  frameSize : UInt32
  frameNr : UInt32
  retireBlkTov : UInt32
  deriving DecidableEq

/-- A system call with the arguments that matter. -/
inductive Syscall where
  | socket
  | packetVersion (v : Int32)
  | attachFilter (len : UInt16) (filters : List SockFilter)
  | lockFilter (v : Int32)
  | rxRing (req : TpacketReq3)
  | mmap (length : UInt64)
  | ifNametoindex (iface : String)
  | bind (ifindex : Nat)
  | fanout (arg : Int32)
  | munmap (ring : Nat) (length : UInt64)
  | close (fd : Nat)
  deriving DecidableEq

/-- What the system calls answer. For `mmap` and `socket` this is an address and a descriptor,
`if_nametoindex` answers zero for an interface that does not exist. -/
structure Kernel where
  socket : Except SysErrno Nat
  packetVersion : Option SysErrno
  attachFilter : UInt16 → List SockFilter → Option SysErrno
  lockFilter : Option SysErrno
  rxRing : TpacketReq3 → Option SysErrno
  mmap : UInt64 → Except SysErrno Nat
  ifNametoindex : String → Nat
  bind : Nat → Option SysErrno
  fanout : Int32 → Option SysErrno
  munmap : Option SysErrno
  close : Option SysErrno

/-- The values of `*err`. -/
inductive AFPacketMsg where
  /-- "socket creation failure" -/
  | socketCreation
  /-- "setsockopt PACKET_VERSION failure" -/
  | packetVersion
  /-- "setsockopt SO_ATTACH_FILTER error" -/
  | attachFilter
  /-- "setsockopt SO_LOCK_FILTER error" -/
  | lockFilter
  /-- "setsockopt PACKET_RX_RING failure" -/
  | rxRing
  /-- "ring mmap failed" -/
  | mmap
  /-- "if_nametoindex failed" -/
  | ifNametoindex
  /-- "bind failed" -/
  | bind
  /-- "setsockopt PACKET_FANOUT failed" -/
  | fanout
  deriving DecidableEq

/-- The arguments of `AFPacket`. -/
structure AFPacketArgs where
  iface : String
  blockSize : Int32
  blockNr : Int32
  blockMs : Int32
  fanoutId : Int32
  fanoutSize : Int32
  fanoutType : Int32
  filterSize : Int32
  filters : List SockFilter

/-- What the calls change: `errno`, and the list of the calls so far. -/
structure AFPacketState where
  errno : Nat
  calls : List Syscall

/-- `MAP_FAILED`, which is `(void*) -1`. -/
def mapFailed : Nat := 0xFFFFFFFFFFFFFFFF

/-- The labels a failure jumps to, with what is in `*ring` and `*err` there. The caller has cleared
`*ring`. -/
inductive Goto where
  | fail1 (ring : Nat) (err : AFPacketMsg)
  | fail2 (ring : Nat) (err : AFPacketMsg)

/-- A system call that goes on at `label` if it fails. -/
def syscall (call : Syscall) (answer : Option SysErrno) (label : Goto) :
    EStateM Goto AFPacketState Unit := fun s =>
  let s := { s with calls := s.calls ++ [call] }
  match answer with
  | none => .ok () s
  | some e => .error label { s with errno := e.val }

/-- The request for the ring. -/
def AFPacketArgs.tp3 (a : AFPacketArgs) : TpacketReq3 where
  blockSize := a.blockSize.toUInt32
  frameSize := a.blockSize.toUInt32
  blockNr := a.blockNr.toUInt32
  frameNr := a.blockNr.toUInt32
  retireBlkTov := a.blockMs.toUInt32

/-- `(size_t) tp3.tp_block_size * tp3.tp_block_nr`. -/
def TpacketReq3.length (req : TpacketReq3) : UInt64 := req.blockSize.toUInt64 * req.blockNr.toUInt64

/-- `(fanout_id & 0xFFFF) | (fanout_type << 16)`. -/
def AFPacketArgs.fanout (a : AFPacketArgs) : Int32 :=
  (a.fanoutId &&& (0xFFFF : Int32)) ||| (a.fanoutType <<< 16)

/-- If requested, set up and lock a filter on the socket. `filter.len` is an `unsigned short`. -/
def AFPacketArgs.setFilter (a : AFPacketArgs) (kernel : Kernel) :
    EStateM Goto AFPacketState Unit :=
  if a.filterSize = 0 then pure ()
  else do
    let len := a.filterSize.toUInt32.toUInt16
    syscall (.attachFilter len a.filters) (kernel.attachFilter len a.filters)
      (.fail1 0 .attachFilter)
    syscall (.lockFilter 1) kernel.lockFilter (.fail1 0 .lockFilter)

/-- Map the ring. A failure sets `errno = EINVAL`, whatever the kernel says. -/
def AFPacketArgs.mapRing (a : AFPacketArgs) (kernel : Kernel) : EStateM Goto AFPacketState Nat :=
  match kernel.mmap a.tp3.length with
  | .ok ring => do
      syscall (.mmap a.tp3.length) none (.fail1 mapFailed .mmap)
      return ring
  | .error _ => do
      syscall (.mmap a.tp3.length) (some eINVAL) (.fail1 mapFailed .mmap)
      return mapFailed

/-- Bind the socket to its interface. -/
def AFPacketArgs.bindTo (a : AFPacketArgs) (kernel : Kernel) (ring : Nat) :
    EStateM Goto AFPacketState Unit := do
  let ifindex := kernel.ifNametoindex a.iface
  syscall (.ifNametoindex a.iface) (if ifindex = 0 then some eINVAL else none)
    (.fail2 ring .ifNametoindex)
  syscall (.bind ifindex) (kernel.bind ifindex) (.fail2 ring .bind)

/-- Set up fanout, unless there is one socket only. -/
def AFPacketArgs.joinFanout (a : AFPacketArgs) (kernel : Kernel) (ring : Nat) :
    EStateM Goto AFPacketState Unit :=
  if a.fanoutSize = 1 then pure ()
  else syscall (.fanout a.fanout) (kernel.fanout a.fanout) (.fail2 ring .fanout)

/-- `AFPacket` between the creation of the socket and `return 0`. The result is the address of
the ring. -/
def AFPacketArgs.setUp (a : AFPacketArgs) (kernel : Kernel) : EStateM Goto AFPacketState Nat := do
  syscall (.packetVersion 2) kernel.packetVersion (.fail1 0 .packetVersion)
  a.setFilter kernel
  syscall (.rxRing a.tp3) (kernel.rxRing a.tp3) (.fail1 0 .rxRing)
  let ring ← a.mapRing kernel
  a.bindTo kernel ring
  a.joinFanout kernel ring
  return ring

/-- What `AFPacket` returns, with its outputs and `errno`. -/
structure AFPacketResult where
  ret : Int32
  errno : Nat
  fd : Nat
  ring : Nat
  err : Option AFPacketMsg
  calls : List Syscall

/-- A call of the cleanup: `int err = errno; …; errno = err;`. -/
def cleanUp (call : Syscall) (answer : Option SysErrno) (s : AFPacketState) : AFPacketState :=
  let err := s.errno
  -- The call may fail and set `errno`, which is put back.
  let s : AFPacketState := {
    errno := (answer.map SysErrno.val).getD s.errno
    calls := s.calls ++ [call] }
  { s with errno := err }

/-- The label `fail1`. -/
def fail1 (kernel : Kernel) (fd ring : Nat) (err : AFPacketMsg) (s : AFPacketState) :
    AFPacketResult :=
  let s := cleanUp (.close fd) kernel.close s
  ⟨-1, s.errno, fd, ring, some err, s.calls⟩

/-- The label `fail2`, which falls through to `fail1`. -/
def fail2 (kernel : Kernel) (a : AFPacketArgs) (fd ring : Nat) (err : AFPacketMsg)
    (s : AFPacketState) : AFPacketResult :=
  -- Two `int`s are multiplied, unlike in the length of the mapping.
  let length := (a.blockSize * a.blockNr).toInt64.toUInt64
  fail1 kernel fd ring err (cleanUp (.munmap ring length) kernel.munmap s)

/-- `AFPacket`, called with `errno` cleared. -/
def afPacket (kernel : Kernel) (a : AFPacketArgs) : AFPacketResult :=
  match kernel.socket with
  -- Nothing to clean up yet. `*fd` is -1, which nobody reads.
  | .error e => ⟨-1, e.val, 0, 0, some .socketCreation, [.socket]⟩
  | .ok fd =>
      match a.setUp kernel ⟨0, [.socket]⟩ with
      | .ok ring s => ⟨0, s.errno, fd, ring, none, s.calls⟩
      | .error (.fail1 ring err) s => fail1 kernel fd ring err s
      | .error (.fail2 ring err) s => fail2 kernel a fd ring err s

end Testimony.Daemon
