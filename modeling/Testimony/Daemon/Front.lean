import Testimony.Daemon.Serve
import Testimony.Daemon.Step

/-!
# `Testimony.Daemon.Front`: a listening socket and the sockets behind it

`Testimony.run` of `daemon.go` accepts connections in a loop and starts a goroutine `handle` for
each of them. `handle` talks to its client, and then sends the connection to one of the `FanoutSize`
sockets of the entry, over the unbuffered channel that the `select` of its `socket.run` receives
from. `front` interleaves the accept loop, the calls of `handle` and all goroutines of these
sockets. The entries of a configuration share nothing but the process.

A call of `handle` is one step up to that send, because until then nobody but its client can see
what it does. While the client has not said enough, the call waits.
-/

set_option autoImplicit false

namespace Testimony.Daemon

open Lib

variable {k : Conf}

/-- What `Testimony.run` is called with: the sockets of an entry, all with the same ring. -/
structure Listener where
  socks : List Socket
  conf : Conf
  numBlocks_eq : ∀ sock ∈ socks, sock.numBlocks = conf.numBlocks

/-- Where an accepted connection is. -/
inductive Stage where
  /-- `handle` is at work, or waits for its client. -/
  | handling
  /-- `handle` is in `sock.newConns <- c`, for the socket with the index `i`. -/
  | offered (client : Behaviour) (i : Nat)
  /-- `socket.run` has taken it, as its connection `c`. -/
  | registered (client : Behaviour) (i : Nat) (c : ConnId)
  /-- `handle` has closed it. -/
  | closed

/-- The sockets by their index, and the accepted connections in the order of `AcceptUnix`. -/
structure Front (k : Conf) where
  sock : Nat → State k
  conns : List Stage
  exited : Bool

/-- The process at the start: no socket has a connection, nothing is accepted yet, and it runs. -/
def Front.initial (k : Conf) : Front k := ⟨fun _ => State.initial k, [], false⟩

/-- A panic in one of its goroutines is the end of the process. -/
def Front.setSock (s : Front k) (i : Nat) (d : State k) : Front k :=
  { s with sock := Function.update s.sock i d, exited := d.panic.isSome }

/-- The socket that `handle` sends the connection to. -/
def handedTo (events : List HandleEvent) : Option Nat :=
  events.findSome? fun
    | .handOff i => some i
    | _ => none

/-- Where a call of `handle` leaves its connection. -/
def Stage.after (client : Behaviour) (r : HandleResult) : Stage :=
  match r.ending with
  | .waiting => .handling
  | .returned | .panicked => (handedTo r.events).elim .closed (.offered client)

/-- The call of `handle` for the `j`-th connection. -/
def Front.handle (socks : List Socket) (s : Front k) (j : Nat) (client : Behaviour) :
    Option (Front k) :=
  match s.conns[j]? with
  | some .handling =>
      let r := Daemon.handle socks client
      some { s with
        conns := s.conns.set j (.after client r)
        exited := decide (r.ending = .panicked) }
  | _ => none

/-- `sock.newConns <- c` meets `c := <-s.newConns`. -/
def Front.newConn (s : Front k) (j : Nat) : Option (Front k) :=
  match s.conns[j]? with
  | some (.offered client i) =>
      (step (s.sock i) (.run .newConn)).map fun d =>
        { s.setSock i d with
          conns := s.conns.set j (.registered client i (s.sock i).numConns) }
  | _ => none

/-- The step makes a connection, so it needs another goroutine to send it. -/
def Label.isNewConn : Label k → Bool
  | .run .newConn => true
  | _ => false

/-- Any other step of a socket. -/
def Front.sockStep (n : Nat) (s : Front k) (i : Nat) (l : Label k) : Option (Front k) :=
  if i < n ∧ l.isNewConn = false then (step (s.sock i) l).map (s.setSock i) else none

/-- The steps of the process: the loop of `RunTestimony` accepts a client or fails, the `handle` of
a client runs to its end, a socket receives a connection from `newConns`, or a goroutine of a socket
takes a step. -/
inductive FrontLabel (k : Conf) where
  | accept
  | acceptError
  | handle (j : Nat) (client : Behaviour)
  | newConn (j : Nat)
  | sock (i : Nat) (l : Label k)

/-- One step of the process. -/
def Front.step (socks : List Socket) (s : Front k) (l : FrontLabel k) : Option (Front k) :=
  if s.exited then none
  else
    match l with
    | .accept => some { s with conns := s.conns ++ [.handling] }
    -- "failed to accept connection: %v"
    | .acceptError => some { s with exited := true }
    | .handle j client => s.handle socks j client
    | .newConn j => s.newConn j
    | .sock i l => s.sockStep socks.length i l

/-- The process, as far as one entry goes. -/
def front (L : Listener) : System (Front L.conf) (FrontLabel L.conf) where
  init := .initial L.conf
  step := Front.step L.socks

end Testimony.Daemon
