import Testimony.Client.Lifetime
import Testimony.GoClient.Init

/-!
# `Testimony.GoClient.Lifetime`: what the Go client holds

`Connect`, `Init` and `Close` of `go/testimony/testimony.go` as whole calls, with the descriptors
and mappings of the process as the state they work on. `Connect` and `Init` call `Close` when they
fail, and `Close` may be called again when it fails. What a process holds and what the kernel does
with it is as in `Client.Lifetime`.

`Connect` also makes a file: `net.DialUnix` binds its socket to a name in the directory of temporary
files. So the state of `Connect` is a `World`, the process and these files.
-/

set_option autoImplicit false

namespace Testimony.GoClient

open Lib
open Client (Resource Process CloseAnswer)

/-- A `net.UnixConn`. A second `Close` is refused, whatever the first one has come to. -/
structure UnixConn where
  fd : Nat
  closed : Bool
  deriving DecidableEq

/-- A `Conn` with what it holds: `nil` is `none`, and a mapping has an address and a length. -/
structure Opened where
  conn : Conn
  c : Option UnixConn
  fd : Nat
  ring : Option (Nat × Nat)
  deriving DecidableEq

/-! ### `Close` -/

/-- The errors of `Close`. -/
inductive CloseError where
  | sys (errno : Client.Errno)
  /-- "use of closed network connection" -/
  | closed
  deriving DecidableEq

/-- What the calls of `Close` answer. -/
structure CloseEnv where
  munmap : Option Nat
  close : CloseAnswer
  closeConn : CloseAnswer

/-- The first part of `Close`: the ring is unmapped, if there is one. -/
def Opened.closeRing (env : CloseEnv) (t : Opened) (p : Process) :
    Option CloseError × Opened × Process :=
  match t.ring with
  | none => (none, t, p)
  | some (addr, len) =>
      match Client.munmap env.munmap addr len p with
      | .ok _ p => (none, { t with ring := none }, p)
      | .error e p => (some (.sys e), t, p)

/-- The second part: the descriptor of the ring is closed, unless it is zero. -/
def Opened.closeFd (env : CloseEnv) (t : Opened) (p : Process) :
    Option CloseError × Opened × Process :=
  if t.fd = 0 then (none, t, p)
  else
    match Client.closeFd env.close t.fd p with
    | .ok _ p => (none, { t with fd := 0 }, p)
    | .error e p => (some (.sys e), t, p)

/-- The third part: the connection is closed. A `UnixConn` that is closed already refuses, and one
whose `close` fails counts as closed. -/
def Opened.closeConn (env : CloseEnv) (t : Opened) (p : Process) :
    Option CloseError × Opened × Process :=
  match t.c with
  | none => (none, t, p)
  | some c =>
      if c.closed then (some .closed, t, p)
      else
        match Client.closeFd env.closeConn c.fd p with
        | .ok _ p => (none, { t with c := none }, p)
        | .error e p => (some (.sys e), { t with c := some { c with closed := true } }, p)

/-- `Conn.Close`. It returns the last of its errors. -/
def Opened.close (env : CloseEnv) (t : Opened) (p : Process) :
    Option CloseError × Opened × Process :=
  let (err₁, t, p) := t.closeRing env p
  let (err₂, t, p) := t.closeFd env p
  let (err₃, t, p) := t.closeConn env p
  (err₃.or (err₂.or err₁), t, p)

/-! ### `Connect` -/

/-- A process and the files in the directory of temporary files, by their names. -/
structure World where
  p : Process
  files : Finset Nat

/-- What `net.DialUnix` comes to with the local address `name`. Binding a socket to the name makes a
file, and fails if there is one. When the call fails, its socket is closed, and the file stays. -/
inductive Dialed (w : World) (name : Nat) where
  | connected (fd : Nat) (fresh : Resource.fd fd ∉ w.p) (free : name ∉ w.files)
  /-- The socket is bound, and cannot be connected. -/
  | refused (errno : Nat) (free : name ∉ w.files)
  /-- There is no socket, or it cannot be bound. -/
  | unbound (errno : Nat)

/-- What `Connect` meets. `localSocketName` is the random name that it makes up, and `close` is for
the `Close` of a call that fails. -/
structure ConnectEnv where
  localSocketName : Nat
  dial : (w : World) → Dialed w localSocketName
  segs : List Seg
  close : CloseEnv

/-- The errors of `Connect`, with the one before its socket is connected. -/
inductive ConnectCallError where
  /-- "error connecting: %v" -/
  | connecting (errno : Nat)
  | reading (err : ConnectError)
  deriving DecidableEq

/-- What comes of `Connect`. -/
inductive Connected where
  | ok (t : Opened)
  | error (err : ConnectCallError)
  | blocked

/-- `Connect` where `net.DialUnix` fails. There is nothing for the deferred `Close` to close. -/
def dialFailed (env : ConnectEnv) (errno : Nat) (w : World) : Connected × World :=
  let t : Opened := ⟨⟨0, 0, 0⟩, none, 0, none⟩
  (.error (.connecting errno), { w with p := (t.close env.close w.p).2.2 })

/-- `Connect` -/
def connectCall (env : ConnectEnv) (w : World) : Connected × World :=
  match env.dial w with
  | .unbound e => dialFailed env e w
  | .refused e _ => dialFailed env e { w with files := insert env.localSocketName w.files }
  | .connected fd _ _ =>
      let t : Opened := ⟨⟨0, 0, 0⟩, some ⟨fd, false⟩, 0, none⟩
      let p := insert (Resource.fd fd) w.p
      let files := insert env.localSocketName w.files
      match connect env.segs with
      | .ok conn _ => (.ok { t with conn := conn }, ⟨p, files⟩)
      | .error (.fail e) _ => (.error (.reading e), ⟨(t.close env.close p).2.2, files⟩)
      | .error .blocked _ => (.blocked, ⟨p, files⟩)

/-! ### `Init` -/

/-- What `ReadMsgUnix` brings into a process: the message, and the descriptors that came with it.
If the message can be parsed they are those it lists. -/
structure Arrived (p : Process) where
  msg : ReadMsg
  fds : List Nat
  fresh : ∀ fd ∈ fds, Resource.fd fd ∉ p
  fds_eq : ∀ msgs, msg.msgs = .ok msgs → fds = msgs.flatMap fun m => m.toOption.getD []

/-- What `Init` meets. -/
structure InitCallEnv where
  send : Option Nat
  readMsg : (p : Process) → Except Nat (Arrived p)
  mmap : (p : Process) → (len : Nat) → Except Nat {addr : Nat // Resource.mapping addr len ∉ p}
  close : CloseEnv

/-- `Init` with a descriptor. -/
def Opened.map (env : InitCallEnv) (t : Opened) (p : Process) :
    Option InitError × Opened × Process :=
  let length := mulInt t.conn.blockSize t.conn.numBlocks
  -- `syscall.Mmap` asks the kernel for a positive length only.
  if length ≤ 0 then (some (.mmap 22), t, p)
  else
    match env.mmap p length.toNat with
    | .error e => (some (.mmap e), t, p)
    | .ok addr =>
        (none, { t with ring := some (addr.val, length.toNat) },
          insert (.mapping addr.val length.toNat) p)

/-- `Init` without its deferred function. -/
def Opened.initBody (env : InitCallEnv) (t : Opened) (p : Process) :
    Option InitError × Opened × Process :=
  match env.send with
  | some e => (some (.writing e), t, p)
  | none =>
      match env.readMsg p with
      | .error e => (some (.reading e), t, p)
      | .ok arrived =>
          -- The descriptors are there, whatever becomes of the message.
          let p := p.addFds arrived.fds
          match receiveFd arrived.msg with
          | .error e => (some e, t, p)
          | .ok fd => Opened.map env { t with fd := fd } p

/-- `Conn.Init` -/
def Opened.init (env : InitCallEnv) (t : Opened) (p : Process) :
    Option InitError × Opened × Process :=
  match t.initBody env p with
  | (none, t, p) => (none, t, p)
  | (some e, t, p) => (some e, (t.close env.close p).2)

/-! ### From `Connect` to `Close` -/

/-- Calls of `Close`, one after the other. -/
def closeAll : List CloseEnv → Opened → Process → Process
  | [], _, p => p
  | env :: envs, t, p =>
      let (_, t, p) := t.close env p
      closeAll envs t p

/-- A program that connects, calls `Init`, and then `Close` a number of times, whatever the calls
return. -/
structure Lifetime where
  connect : ConnectEnv
  init : InitCallEnv
  closes : List CloseEnv

/-- What there is at the end. The result is `none` if `Connect` does not return. -/
def Lifetime.run (l : Lifetime) (w : World) : Option World :=
  match connectCall l.connect w with
  | (.ok t, w) =>
      let (_, t, p) := t.init l.init w.p
      some { w with p := closeAll l.closes t p }
  | (.error _, w) => some w
  | (.blocked, _) => none

end Testimony.GoClient
