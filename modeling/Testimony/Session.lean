import Testimony.Client.Caller
import Testimony.Daemon.Log
import Testimony.Daemon.Step

/-!
# `Testimony.Session`: a C client and the daemon

The whole daemon socket, with all its connections, together with the client at one of them: the
program of `Client.Caller` talks to connection `c`. What `conn.run` writes travels as bytes and
arrives in any pieces. The client's 4-byte words arrive whole. The other clients stay as they
are in `Daemon.system`, where they may send anything.
-/

set_option autoImplicit false

namespace Testimony.Session

open Lib Lib.BigEndian Client Daemon

variable {k : Conf}

/-- The daemon, a C program on one of its connections, and what is on its way between the two. -/
structure State (k : Conf) where
  daemon : Daemon.State k
  caller : Caller
  /-- Bytes the `conn.run` of the connection wrote that have not arrived. -/
  net : List UInt8
  /-- Words the program sent that `handleReads` has not read. -/
  back : List UInt32

/-- What happens next. `stop` is a signal, the end of the stream or an error at the client's
socket. -/
inductive Label (k : Conf) where
  | daemon (l : Daemon.Label k)
  | deliver
  | arrive (n : Nat)
  | stop (seg : Seg)
  | call (call : Call)

/-- The step would hand the connection's `handleReads` data that the program did not send. -/
def fromClient (c : ConnId) : Daemon.Label k → Bool
  | .reads d (.data _) => d = c
  | _ => false

/-- The daemon has gone on to `d`. What it wrote to the client is in the new part of the log. -/
def State.setDaemon (c : ConnId) (s : State k) (d : Daemon.State k) : State k :=
  { s with
      daemon := d
      net := s.net ++ written c (d.log.drop s.daemon.log.length) }

/-- More for the client to read. -/
def State.push (s : State k) (segs : List Seg) : State k :=
  { s with
      caller := { s.caller with
        t := { s.caller.t with sock := s.caller.t.sock.push segs } } }

/-- The word a step of the program puts on the wire. -/
def outgoing : Call → List UInt32
  | .send i none => [i]
  | _ => []

/-- One step of the two sides. -/
def step (c : ConnId) (s : State k) : Label k → Option (State k)
  | .daemon l =>
      if fromClient c l then none else (Daemon.step s.daemon l).map (s.setDaemon c)
  | .deliver =>
      match s.back with
      | [] => none
      | w :: ws =>
          -- Each word arrives whole, so that one `Read` takes it.
          if (s.daemon.conn c).reads = .read then
            (Daemon.step s.daemon (.reads c (.data (putUint32 w)))).map fun d =>
              { s with daemon := d, back := ws }
          else none
  | .arrive n =>
      if 0 < n ∧ n ≤ s.net.length then
        some { s.push (Seg.unread (s.net.take n) []) with net := s.net.drop n }
      else none
  | .stop seg => if Seg.pending [seg] = [] then some (s.push [seg]) else none
  | .call call =>
      (s.caller.step call).map fun caller =>
        { s with caller := caller, back := s.back ++ outgoing call }

/-- The client `t` at connection `c`, before its first call. -/
def system (k : Conf) (c : ConnId) (t : T) : System (State k) (Label k) where
  init := ⟨.initial k, .start t, [], []⟩
  step := step c

end Testimony.Session
