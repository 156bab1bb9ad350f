import Testimony.Daemon.AFPacket
import Testimony.Daemon.Handle
import Testimony.Lib.FreeNumbers

/-!
# `Testimony.Daemon.Config`: from the configuration to the sockets

`newSocket` of `socket.go` and `RunTestimony` of `daemon.go`: check the configuration, choose a
fanout id for each entry, and set up its sockets.

What the daemon meets outside (`tcpdump`, the kernel, the file system) is an `Env`. An entry is
taken as it comes from the configuration file, with Go's 64-bit `int`s as integers in that range
where a conversion depends on it.
-/

set_option autoImplicit false

namespace Testimony.Daemon

open Lib

/-- The range of a Go `int`. -/
def IsInt (x : Int) : Prop := -2 ^ 63 ≤ x ∧ x < 2 ^ 63

/-- Whether a number is an `int` is decided by its two bounds. -/
instance (x : Int) : Decidable (IsInt x) := inferInstanceAs (Decidable (_ ∧ _))

/-- A `SocketConfig` with the fields that `newSocket` and `RunTestimony` read. -/
structure ConfigEntry extends SocketConfig where
  socketName : String
  interface : String
  blockTimeoutMillis : Int
  fanoutType : Int
  fanoutSize : Int
  fanoutID : Int
  filter : String
  isInt_blockSize : IsInt blockSize
  isInt_numBlocks : IsInt numBlocks

/-! ### `newSocket` -/

/-- The most bytes that the elements of a channel may take, `maxAlloc - hchanSize` of Go's runtime
on 64-bit Linux. It is a number of the runtime and not of the language, so another version of Go may
have another one. The repository asks for no particular version. -/
def maxChanBytes : Int := 2 ^ 48 - 96

/-- `make(chan *block, n)` panics. A pointer has eight bytes. -/
def MakechanPanics (n : Int) : Prop := n < 0 ∨ maxChanBytes < 8 * n

/-- Whether `make` panics is decided by its two conditions. -/
instance (n : Int) : Decidable (MakechanPanics n) := inferInstanceAs (Decidable (_ ∨ _))

/-- What `newSocket` returns instead of a socket. A `NumBlocks` out of range and an empty filter
program make it panic. -/
inductive NewSocketError where
  /-- `make(chan *block, sc.NumBlocks)`: "size out of range" -/
  | makechan
  /-- "unable to compile filter %q on interface %q: %v" -/
  | compileFilter
  /-- `&f[0]`: "index out of range" -/
  | emptyFilter
  /-- "C AFPacket call failed: %v: %v" -/
  | afPacket (err : Option AFPacketMsg) (errno : Nat)
  deriving DecidableEq

/-- A `socket`, with the system calls that made it. `numBlocks` is `len(s.blocks)`. -/
structure Socket where
  num : Nat
  conf : ConfigEntry
  numBlocks : Nat
  fd : Nat
  ring : Nat
  calls : List Syscall

/-- The call of `AFPacket` in `newSocket`. -/
def ConfigEntry.args (sc : ConfigEntry) (fanoutID : Int) (filters : List SockFilter) :
    AFPacketArgs where
  iface := sc.interface
  blockSize := Int32.ofInt sc.blockSize
  blockNr := Int32.ofInt sc.numBlocks
  blockMs := Int32.ofInt sc.blockTimeoutMillis
  fanoutId := Int32.ofInt fanoutID
  fanoutSize := Int32.ofInt sc.fanoutSize
  fanoutType := Int32.ofInt sc.fanoutType
  filterSize := Int32.ofInt filters.length
  filters := filters

/-- The filter program of an entry. `compile` is what `compileFilter` returns. -/
def filterOf (sc : ConfigEntry) (compile : Option (List SockFilter)) :
    Except NewSocketError (List SockFilter) :=
  if sc.filter = "" then .ok []
  else
    match compile with
    | none => .error .compileFilter
    | some [] => .error .emptyFilter
    | some (f :: filters) => .ok (f :: filters)

/-- `newSocket`. The error of a C call is its `errno`, whatever it returned. -/
def newSocket (kernel : Kernel) (compile : Option (List SockFilter)) (sc : ConfigEntry)
    (fanoutID : Int) (num : Nat) : Except NewSocketError Socket := do
  -- The channel is made before anything else is looked at.
  if MakechanPanics sc.numBlocks then throw .makechan
  let filters ← filterOf sc compile
  let r := afPacket kernel (sc.args fanoutID filters)
  if r.errno ≠ 0 then throw (.afPacket r.err r.errno)
  return ⟨num, sc, sc.numBlocks.toNat, r.fd, r.ring, r.calls⟩

/-- `uintptr(x)`. -/
def uintptr (x : Int) : UInt64 := ⟨BitVec.ofInt 64 x⟩

/-- The offset of a block in the ring, as `cblock` computes it. -/
def Socket.cblock (s : Socket) (index : Nat) : UInt64 := uintptr s.conf.blockSize * uintptr index

/-! ### `RunTestimony` -/

/-- What stops `RunTestimony` before it serves. -/
inductive Fatal where
  /-- "invalid config: %d is not a valid FanoutID" -/
  | invalidFanoutID (id : Int)
  /-- "invalid config: duplicate FanoutID %d" -/
  | duplicateFanoutID (id : Int)
  /-- "invalid config: duplicate socket name %q" -/
  | duplicateSocketName (name : String)
  /-- "invalid config %+v: %v", or a panic in `newSocket` -/
  | newSocket (e : NewSocketError)
  /-- "failed to listen on socket: %v" or "failed to set socket permissions: %v" -/
  | listen
  /-- The search for an id goes on for ever. -/
  | searching
  deriving DecidableEq

/-- Everything outside the daemon. -/
structure Env where
  /-- The kernel's answers for the socket with the given number, of the given entry and id. -/
  kernel : ConfigEntry → Int → Nat → Kernel
  /-- What `compileFilter` returns for an interface and a filter. -/
  compile : String → String → Option (List SockFilter)
  /-- Listening on the entry's socket and setting its permissions succeed. -/
  listens : ConfigEntry → Bool

/-- The first loop of `RunTestimony`: collect the manual ids. -/
def manualIDs (ids : List Int) : List ConfigEntry → Except Fatal (List Int)
  | [] => .ok ids
  | sc :: t =>
      if sc.fanoutID < 0 then .error (.invalidFanoutID sc.fanoutID)
      -- Zero is never entered, so any number of entries may have it.
      else if sc.fanoutID ∈ ids then .error (.duplicateFanoutID sc.fanoutID)
      else manualIDs (if 0 < sc.fanoutID then sc.fanoutID :: ids else ids) t

/-- The id of an entry, and where the next search begins. -/
def chooseID (ids : List Int) (autoID : Int) (sc : ConfigEntry) : Except Fatal (Int × Int) :=
  if 0 < sc.fanoutID then .ok (sc.fanoutID, autoID)
  else
    -- Among one number more than there are manual ids, one is free.
    match search ids (ids.length + 1) autoID with
    | some id => .ok (id, id + 1)
    | none => .error .searching

/-- The sockets of an entry. -/
def newSockets (env : Env) (sc : ConfigEntry) (fanoutID : Int) : Except Fatal (List Socket) :=
  (List.range sc.fanoutSize.toNat).mapM fun i =>
    match newSocket (env.kernel sc fanoutID i) (env.compile sc.interface sc.filter) sc fanoutID
      i with
    | .ok sock => .ok sock
    | .error e => .error (.newSocket e)

/-- The second loop of `RunTestimony`. The result has the sockets of each entry. -/
def serve (env : Env) (ids : List Int) :
    Int → List String → List ConfigEntry → Except Fatal (List (List Socket))
  | _, _, [] => .ok []
  | autoID, names, sc :: t => do
      if sc.socketName ∈ names then throw (.duplicateSocketName sc.socketName)
      let (fanoutID, autoID) ← chooseID ids autoID sc
      -- `FanoutSize` sockets share the id, and are numbered from zero.
      let socks ← newSockets env sc fanoutID
      if env.listens sc = false then throw .listen
      let rest ← serve env ids autoID (sc.socketName :: names) t
      return socks :: rest

/-- `RunTestimony`, up to the point where it serves for ever. -/
def runTestimony (env : Env) (t : List ConfigEntry) : Except Fatal (List (List Socket)) := do
  let ids ← manualIDs [] t
  serve env ids 1 [] t

end Testimony.Daemon
