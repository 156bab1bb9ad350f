import Mathlib.Data.Finset.Insert
import Testimony.Client.Init

/-!
# `Testimony.Client.Lifetime`: what the C client holds

`testimony_connect`, `testimony_init` and `testimony_close` as whole calls, with the descriptors,
mappings and heap objects of the process as the state they work on.

What a system call or the allocator answers is a choice, made anew for each call. All that is
known of a new descriptor, mapping or heap object is that the process does not hold it yet.
-/

set_option autoImplicit false

namespace Testimony.Client

open Lib Wire

/-- What a process can hold. -/
inductive Resource where
  | fd (n : Nat)
  | mapping (addr len : Nat)
  | heap (addr : Nat)
  deriving DecidableEq

/-- A process: what it holds. -/
abbrev Process := Finset Resource

/-- `testimony_internal`, at the address `addr`. A null pointer of `block_counts` is `none`. -/
structure Internal where
  addr : Nat
  conn : Connection
  sockFd : Int
  afpacketFd : Int
  ring : Nat
  blockCounts : Option Nat
  sock : Sock

/-- The client that `testimony_get_block` and the return functions see, with what there is to read
by then. -/
def Internal.toT (t : Internal) (sock : Sock) : T := T.init t.sockFd.toNat t.conn sock t.ring

/-- The caller sets `testimony_conn(t)->fanout_index`. -/
def Internal.setFanoutIndex (t : Internal) (index : Int32) : Internal :=
  { t with conn := { t.conn with fanoutIndex := index } }

/-- The product of two `size_t`s. -/
def sizeProduct (a b : Nat) : Nat := a * b % 2 ^ 64

/-- The number of an `errno`. -/
def Errno.code : Errno → Nat
  | .ECANCELED => 125
  | .EPROTONOSUPPORT => 93
  | .EINVAL => 22
  | Errno.EIO => 5
  | .sys errno => errno

/-- `ENOMEM` -/
def enomem : Errno := .sys 12

/-- `EBADF` -/
def ebadf : Errno := .sys 9

/-! ### `testimony_close` -/

/-- What `close` answers for a descriptor that is open. A `close` that fails may have released the
descriptor or not. -/
inductive CloseAnswer where
  | ok
  | error (errno : Nat) (released : Bool)
  deriving DecidableEq

/-- What the calls of `testimony_close` answer, `munmap` with its `errno` if it fails. -/
structure CloseEnv where
  munmap : Option Nat
  close : CloseAnswer

/-- `close`. A negative number is no descriptor. -/
def closeFd (answer : CloseAnswer) : Int → EStateM Errno Process Unit
  | .negSucc _ => throw ebadf
  | .ofNat fd => fun p =>
      if .fd fd ∈ p then
        match answer with
        | .ok => .ok () (p.erase (.fd fd))
        | .error e true => .error (.sys e) (p.erase (.fd fd))
        | .error e false => .error (.sys e) p
      else .error ebadf p

/-- `munmap` -/
def munmap (answer : Option Nat) (addr len : Nat) : EStateM Errno Process Unit := fun p =>
  match answer with
  | none => .ok () (p.erase (.mapping addr len))
  | some e => .error (.sys e) p

/-- `free` does nothing to a null pointer. -/
def free (ptr : Option Nat) : EStateM Errno Process Unit := fun p =>
  match ptr with
  | none => .ok () p
  | some addr => .ok () (p.erase (.heap addr))

/-- `testimony_close` -/
def testimonyClose (env : CloseEnv) (t : Internal) : EStateM Errno Process Unit := do
  if t.ring ≠ 0 then
    munmap env.munmap t.ring (sizeProduct t.conn.blockNr t.conn.blockSize)
  closeFd env.close t.sockFd
  -- `afpacket_fd` is not looked at.
  free t.blockCounts
  free (some t.addr)

/-! ### `testimony_connect` -/

/-- What `testimony_connect` meets. `close` is for the `testimony_close` of a call that fails. -/
structure ConnectEnv where
  malloc : (p : Process) → Option {addr : Nat // Resource.heap addr ∉ p}
  socket : (p : Process) → Except Nat {fd : Nat // Resource.fd fd ∉ p}
  bind : Option Nat
  connect : Option Nat
  segs : List Seg
  close : CloseEnv

/-- The messages of `testimony_connect`, with those before its socket is connected. -/
inductive ConnectCallMsg where
  /-- "socket creation failed" -/
  | socket
  /-- "bind failed" -/
  | bind
  /-- "connect to '%s' failed" -/
  | connect
  | reading (msg : ConnectMsg)
  deriving DecidableEq

/-- What comes of `testimony_connect`. Only a failed `malloc` has no message. -/
inductive Connected where
  | ok (t : Internal)
  | error (errno : Errno) (msg : Option ConnectCallMsg)
  | blocked

/-- The label `fail` of `testimony_connect`. -/
def connectFail (env : CloseEnv) (t : Internal) (errno : Errno) (msg : ConnectCallMsg)
    (p : Process) : Connected × Process :=
  match testimonyClose env t p with
  | .ok _ p | .error _ p => (.error errno (some msg), p)

/-- `testimony_connect` with its memory: everything behind `malloc`. -/
def connectWith (env : ConnectEnv) (addr : Nat) (p : Process) : Connected × Process :=
  -- `memset(t, 0, sizeof(*t))`
  let t : Internal := ⟨addr, ⟨0, 0, 0, 0⟩, 0, 0, 0, none, ⟨[], []⟩⟩
  match env.socket p with
  | .error e => connectFail env.close { t with sockFd := -1 } (.sys e) .socket p
  | .ok fd =>
      let t := { t with sockFd := fd.val }
      let p := insert (Resource.fd fd.val) p
      match env.bind, env.connect with
      | some e, _ => connectFail env.close t (.sys e) .bind p
      | none, some e => connectFail env.close t (.sys e) .connect p
      | none, none =>
          match testimonyConnect ⟨[], env.segs⟩ with
          | .ok conn sock => (.ok { t with conn := conn, sock := sock }, p)
          | .error (.fail e msg) _ => connectFail env.close t e (.reading msg) p
          | .error .blocked _ => (.blocked, p)

/-- `testimony_connect` -/
def testimonyConnectCall (env : ConnectEnv) (p : Process) : Connected × Process :=
  match env.malloc p with
  | none => (.error enomem none, p)
  | some addr => connectWith env addr.val (insert (Resource.heap addr.val) p)

/-! ### `testimony_init` -/

/-- The messages of `testimony_init`. -/
inductive InitMsg where
  /-- "testimony has already been initiated" -/
  | alreadyInitiated
  /-- "send of fanout index type" -/
  | sendHead
  /-- "send of fanout index failed" -/
  | sendIndex
  /-- "recv of file descriptor failed" -/
  | recvFd
  /-- "local mmap of file descriptor failed" -/
  | mmap
  deriving DecidableEq

/-- A control message. The kernel passes no `SCM_RIGHTS` without a descriptor. -/
inductive Cmsg where
  | rights (fd : Nat) (more : List Nat)
  | other
  deriving DecidableEq

/-- The descriptors that come with a control message. -/
def Cmsg.fds : Cmsg → List Nat
  | .rights fd more => fd :: more
  | .other => []

/-- What `recvmsg` gives a process: a number of bytes and control messages. -/
structure Received (p : Process) where
  bytes : Nat
  cmsgs : List Cmsg
  fresh : ∀ fd ∈ cmsgs.flatMap Cmsg.fds, Resource.fd fd ∉ p

/-- What `testimony_init` meets. `errno` is the value it has before the call: a `recvmsg` that
returns another number of bytes does not set it. -/
structure InitEnv where
  sendHead : Option Nat
  sendIndex : Option Nat
  errno : Nat
  recvmsg : (p : Process) → Except Nat (Received p)
  calloc : (p : Process) → Option {addr : Nat // Resource.heap addr ∉ p}
  mmap : (p : Process) → (len : Nat) →
    Except Nat {addr : Nat // addr ≠ 0 ∧ addr + len ≤ 2 ^ 64 ∧ Resource.mapping addr len ∉ p}

/-- The loop over the control messages: the first descriptor of the first `SCM_RIGHTS`. -/
def firstRights : List Cmsg → Option Nat
  | [] => none
  | .rights fd _ :: _ => some fd
  | .other :: cmsgs => firstRights cmsgs

/-- The process once it has descriptors. -/
def Process.addFds (p : Process) (fds : List Nat) : Process :=
  fds.foldr (fun fd p => insert (.fd fd) p) p

/-- `recv_file_descriptor` -/
def recvFileDescriptor (env : InitEnv) : EStateM Errno Process Nat := fun p =>
  match env.recvmsg p with
  | .error e => .error (.sys e) p
  | .ok msg =>
      -- The descriptors are there, whatever becomes of the message.
      let p := p.addFds (msg.cmsgs.flatMap Cmsg.fds)
      if msg.bytes ≠ 1 then .error (.sys env.errno) p
      else
        match firstRights msg.cmsgs with
        | some fd => .ok fd p
        | none => .error Errno.EIO p

/-- What a call of `testimony_init` has done. -/
structure InitDone where
  result : Except (Errno × InitMsg) Unit
  t : Internal
  p : Process

/-- `-errno`, or 0. -/
def InitDone.ret (d : InitDone) : Int :=
  match d.result with
  | .ok _ => 0
  | .error (e, _) => -e.code

/-- `testimony_init` with a descriptor. A failed `calloc` goes unnoticed. -/
def mapFd (env : InitEnv) (fd : Nat) (t : Internal) (p : Process) : InitDone :=
  let len := sizeProduct t.conn.blockSize t.conn.blockNr
  let counts := (env.calloc p).map (·.val)
  let p := match counts with
    | none => p
    | some addr => insert (Resource.heap addr) p
  let t := { t with afpacketFd := fd, blockCounts := counts }
  match env.mmap p len with
  | .ok ring => ⟨.ok (), { t with ring := ring.val }, insert (.mapping ring.val len) p⟩
  | .error e => ⟨.error (.sys e, .mmap), { t with ring := 0 }, p⟩

/-- `testimony_init` -/
def testimonyInit (env : InitEnv) (t : Internal) (p : Process) : InitDone :=
  if t.ring ≠ 0 then ⟨.error (.EINVAL, .alreadyInitiated), t, p⟩
  else
    match env.sendHead, env.sendIndex with
    | some e, _ => ⟨.error (.sys e, .sendHead), t, p⟩
    | none, some e => ⟨.error (.sys e, .sendIndex), t, p⟩
    | none, none =>
        match recvFileDescriptor env p with
        | .error e p => ⟨.error (e, .recvFd), { t with afpacketFd := -1 }, p⟩
        | .ok fd p => mapFd env fd t p

/-- Calls of `testimony_init`, one after the other, whatever they return. -/
def initAll : List InitEnv → Internal → Process → Internal × Process
  | [], t, p => (t, p)
  | env :: envs, t, p =>
      let d := testimonyInit env t p
      initAll envs d.t d.p

end Testimony.Client
