import Testimony.Client.Init
import Testimony.Daemon.Handle
import Testimony.Lib.Transition

/-!
# `Testimony.Handoff`: a C client and the daemon set up a connection

`Testimony.handle` and then `conn.run` on one side of a socket, `testimony_connect` and then
`testimony_init` on the other. The stream towards the client carries bytes, one of them with a
descriptor attached. `recv` drops a descriptor, `recvmsg` returns it.

The client calls `recv` only when it needs bytes. `testimony_connect` is a function of what
`recv` has returned so far, and it stands at a `recv` exactly when that function is `blocked`.

Of `conn.run` only its output matters here: the indexes of blocks, one after the other, in
writes of any size.
-/

set_option autoImplicit false

namespace Testimony.Handoff

open Lib Lib.BigEndian Wire Client Daemon

/-- Who meets: the descriptors of `socks`, their configuration, and the descriptor of the
client's end of the connection. -/
structure Setup where
  fds : List Nat
  conf : SocketConfig
  sockFd : Nat

/-- A byte on its way to the client, with the descriptor attached to it. -/
abbrev Item := UInt8 × Option Nat

/-- Bytes without descriptors. -/
def plain (bytes : List UInt8) : List Item := bytes.map fun b => (b, none)

/-- Where the client stands. -/
inductive ClientPc where
  /-- In `testimony_connect`, with what `recv` has returned. -/
  | connecting (segs : List Seg)
  /-- `testimony_connect` has returned 0. -/
  | connected (conn : Connection) (sock : Sock)
  /-- In `testimony_init`, with the messages still to be sent. -/
  | sending (conn : Connection) (sock : Sock) (msgs : List (List UInt8))
  /-- Before `recvmsg` in `recv_file_descriptor`. -/
  | recvFd (conn : Connection) (sock : Sock)
  /-- Before `mmap`. -/
  | map (conn : Connection) (sock : Sock) (fd : Nat)
  /-- `testimony_init` has returned 0. The segments of `t.sock` are what `recv` has returned
  since. -/
  | ready (t : T) (fd : Nat)
  /-- `recvmsg` has returned a byte without a descriptor: `testimony_init` returns `-EIO`. -/
  | noDescriptor
  /-- A call has returned another error. -/
  | failed

/-- The server and the client of one connection, and the two streams between them. -/
structure State where
  handle : HandlePc
  /-- The bytes `conn.run` has still to write, and the indexes it has written or will. -/
  out : List UInt8
  indexes : List UInt32
  client : ClientPc
  toClient : List Item
  toServer : List UInt8
  /-- The descriptors that `recv` has dropped. -/
  dropped : List Nat

/-- `handle` is about to write its greeting, and `testimony_connect` is about to read it. -/
def State.initial (S : Setup) : State where
  handle := .start S.fds S.conf
  out := []
  indexes := []
  client := .connecting []
  toClient := []
  toServer := []
  dropped := []

/-! ### The server -/

/-- The steps of the server: the writes and reads of `handle` take or give `n` bytes at a time,
`handOff` makes the connection, and then `conn.run` queues indexes and writes them. Each of them can
fail. -/
inductive ServerLabel where
  | write (n : Nat)
  | read (n : Nat)
  | writeFd
  | handOff
  | index (i : UInt32)
  | writeIndexes (n : Nat)
  | fail
  deriving DecidableEq

/-- One step of `handle`, and then of `conn.run`. -/
def serverStep (S : Setup) (s : State) : ServerLabel → Option State
  | .write n =>
      match s.handle with
      | .greet rest =>
          if 0 < n ∧ n ≤ rest.length then
            some { s with
              handle := if rest.drop n = [] then .readFanout [] else .greet (rest.drop n)
              toClient := s.toClient ++ plain (rest.take n) }
          else none
      | _ => none
  | .read n =>
      match s.handle with
      | .readFanout fanoutMsg =>
          if 0 < n ∧ n ≤ s.toServer.length ∧ fanoutMsg.length + n ≤ 8 then
            let fanoutMsg := fanoutMsg ++ s.toServer.take n
            some { s with
              handle := if fanoutMsg.length = 8 then afterFanoutMsg S.fds fanoutMsg
                else .readFanout fanoutMsg
              toServer := s.toServer.drop n }
          else none
      | _ => none
  | .writeFd =>
      match s.handle with
      | .writeFd fd =>
          -- `msg` is one dummy byte.
          some { s with handle := .handOff, toClient := s.toClient ++ [(0, some fd)] }
      | _ => none
  | .handOff =>
      match s.handle with
      | .handOff => some { s with handle := .served }
      | _ => none
  | .index i =>
      match s.handle with
      -- From here on the connection belongs to `conn.run`.
      | .served => some { s with out := s.out ++ putUint32 i, indexes := s.indexes ++ [i] }
      | _ => none
  | .writeIndexes n =>
      match s.handle with
      | .served =>
          if 0 < n ∧ n ≤ s.out.length then
            some { s with
              out := s.out.drop n
              toClient := s.toClient ++ plain (s.out.take n) }
          else none
      | _ => none
  | .fail => some { s with handle := .closed }

/-! ### The client -/

/-- The steps of the client: `recv` inside `testimony_connect` gives `n` bytes or stops,
`testimony_init` is called with a fan-out index, sends its message in pieces, gets the descriptor
and maps it. Each of them can fail. -/
inductive ClientLabel where
  | recv (n : Nat)
  | recvStops (seg : Seg)
  | connectReturns
  | init (fanoutIndex : Int32)
  | send (n : Nat)
  | recvmsg
  | mmap (ring : Nat)
  | fail

/-- `recv` takes `n` bytes off the stream and drops their descriptors. -/
def State.recv (s : State) (n : Nat) (client : List UInt8 → ClientPc) : Option State :=
  if 0 < n ∧ n ≤ bufSize ∧ n ≤ s.toClient.length then
    some { s with
      client := client ((s.toClient.take n).map Prod.fst)
      toClient := s.toClient.drop n
      dropped := s.dropped ++ (s.toClient.take n).filterMap Prod.snd }
  else none

/-- A signal, or the end of a stream that the server has closed. -/
def State.stops (s : State) : Seg → Bool
  | .data _ _ => false
  | .eintr => true
  | .eof => s.handle = .closed ∧ s.toClient = []
  | .error _ => true

/-- `testimony_connect` waits for more. -/
def waits (segs : List Seg) : Bool :=
  match testimonyConnect ⟨[], segs⟩ with
  | .error .blocked _ => true
  | _ => false

/-- One step of the client. -/
def clientStep (S : Setup) (s : State) : ClientLabel → Option State
  | .recv n =>
      match s.client with
      | .connecting segs =>
          -- Only a call that needs more bytes goes to the kernel.
          if waits segs then
            s.recv n fun bytes => .connecting (segs ++ Seg.unread bytes [])
          else none
      | .ready t fd =>
          s.recv n fun bytes =>
            .ready { t with sock := { t.sock with segs := t.sock.segs ++ Seg.unread bytes [] } } fd
      | _ => none
  | .recvStops seg =>
      match s.client with
      | .connecting segs =>
          if waits segs ∧ s.stops seg then some { s with client := .connecting (segs ++ [seg]) }
          else none
      | _ => none
  | .connectReturns =>
      match s.client with
      | .connecting segs =>
          match testimonyConnect ⟨[], segs⟩ with
          | .ok conn sock => some { s with client := .connected conn sock }
          | .error (.fail _ _) _ => some { s with client := .failed }
          | .error .blocked _ => none
      | _ => none
  | .init fanoutIndex =>
      match s.client with
      | .connected conn sock =>
          if 0 ≤ fanoutIndex ∧ fanoutIndex < conn.fanoutSize then
            let conn := { conn with fanoutIndex := fanoutIndex }
            some { s with client := .sending conn sock (initMsgs conn) }
          else none
      | _ => none
  | .send n =>
      match s.client with
      | .sending conn sock (msg :: msgs) =>
          if 0 < n ∧ n ≤ msg.length then
            some { s with
              client := if msgs = [] then .recvFd conn sock else .sending conn sock msgs
              toServer := s.toServer ++ msg.take n }
          else none
      | _ => none
  | .recvmsg =>
      match s.client with
      | .recvFd conn sock =>
          match s.toClient with
          | (_, some fd) :: rest =>
              some { s with client := .map conn sock fd, toClient := rest }
          -- A byte of the stream where the dummy byte should be.
          | (_, none) :: rest => some { s with client := .noDescriptor, toClient := rest }
          | [] => none
      | _ => none
  | .mmap ring =>
      match s.client with
      | .map conn sock fd => some { s with client := .ready (.init S.sockFd conn sock ring) fd }
      | _ => none
  | .fail =>
      match s.client with
      | .sending _ _ _ | .recvFd _ _ | .map _ _ _ => some { s with client := .failed }
      | _ => none

/-! ### The system -/

/-- A step of one of the two sides. -/
inductive Label where
  | server (l : ServerLabel)
  | client (l : ClientLabel)

/-- Both sides take turns in any order. -/
def system (S : Setup) : System State Label where
  init := .initial S
  step s
    | .server l => serverStep S s l
    | .client l => clientStep S s l

end Testimony.Handoff
