import Testimony.GoClient.Program
import Testimony.Session

/-!
# `Testimony.GoSession`: a Go client and the daemon

The daemon socket with the program of `GoClient.Program` at connection `c`. The two directions of
the connection are those of `Session`, and so is everything but the calls of the program.
-/

set_option autoImplicit false

namespace Testimony.GoSession

open Lib Lib.BigEndian GoClient Daemon

variable {k : Conf}

/-- The daemon, a Go program on one of its connections, and what is on its way between the two. -/
structure State (k : Conf) where
  daemon : Daemon.State k
  program : Program
  /-- Bytes the `conn.run` of the connection wrote that have not arrived. -/
  net : List UInt8
  /-- Words the program wrote that `handleReads` has not read. -/
  back : List UInt32

/-- What happens next. `stop` is a signal, the end of the stream or an error at the client's
socket. -/
inductive Label (k : Conf) where
  | daemon (l : Daemon.Label k)
  | deliver
  | arrive (n : Nat)
  | stop (seg : Seg)
  | call (call : ProgramCall)

/-- The daemon has gone on to `d`. -/
def State.setDaemon (c : ConnId) (s : State k) (d : Daemon.State k) : State k :=
  { s with
      daemon := d
      net := s.net ++ written c (d.log.drop s.daemon.log.length) }

/-- More for the client to read. -/
def State.push (s : State k) (segs : List Seg) : State k :=
  { s with program := { s.program with segs := s.program.segs ++ segs } }

/-- One step of the two sides. -/
def step (c : ConnId) (s : State k) : Label k → Option (State k)
  | .daemon l =>
      if Session.fromClient c l then none else (Daemon.step s.daemon l).map (s.setDaemon c)
  | .deliver =>
      match s.back with
      | [] => none
      | w :: ws =>
          if (s.daemon.conn c).reads = .read then
            (Daemon.step s.daemon (.reads c (.data (putUint32 w)))).map fun d =>
              { s with daemon := d, back := ws }
          else none
  | .arrive n =>
      if 0 < n ∧ n ≤ s.net.length then
        some { s.push (Seg.unread (s.net.take n) []) with net := s.net.drop n }
      else none
  | .stop seg => if Seg.pending [seg] = [] then some (s.push [seg]) else none
  | .call call =>
      (s.program.step call).map fun next =>
        { s with program := next.1, back := s.back ++ next.2 }

/-- The client `t` at connection `c`, before its first call of `Block`. -/
def system (k : Conf) (c : ConnId) (t : Ready) : System (State k) (Label k) where
  init := ⟨.initial k, .start t, [], []⟩
  step := step c

end Testimony.GoSession
