import Testimony.Daemon.Reads

/-!
# `Testimony.Daemon.Single`: one connection and everything around it

One `conn` with its two goroutines, cut out of its socket. The steps of `conn.run` and
`handleReads` are those of `Daemon.Step`. The rest is an environment that may do anything it could
do there: `socket.run` sends any block at any time until it closes `c.newBlocks`, which it does only
after it has received the connection on `oldConns`, the other holders of a block decide whether an
`unref` brings its count to zero, and the client sends a given stream in given pieces.

The lists at the end of the state are history variables: no step reads them.
-/

set_option autoImplicit false

namespace Testimony.Daemon

open Lib

/-- The room a `Read` of `handleReads` has. -/
def ReadsPc.room : ReadsPc → Nat
  | .read => 4
  | .value missing => missing
  | _ => 0

namespace Single

variable {k : Conf}

/-- A connection by itself, with the bytes that its client will still send and what it has exchanged
with the rest of the daemon so far. -/
structure State (k : Conf) where
  cn : Conn k
  /-- What the client's socket still delivers. -/
  net : List Seg
  /-- `socket.run` has received the connection on `oldConns`. -/
  retired : Bool
  panic : Option Panic
  /-- The blocks `socket.run` has sent on `c.newBlocks`. -/
  sent : List k.Index
  /-- The blocks `conn.run` has received from it. -/
  got : List k.Index
  /-- The blocks `conn.run` has called `unref` on. -/
  unrefs : List k.Index
  /-- The values `handleReads` has sent on `c.oldBlocks`. -/
  posted : List Nat
  /-- The values `conn.run` has received from it. -/
  received : List Nat

/-- What happens next. `zero` says that an `unref` brings the count to zero. -/
inductive Label (k : Conf) where
  | send (b : k.Index)
  | oldConn
  | closeNewBlocks
  | run (ch : ConnChoice)
  | unref (zero : Bool)
  | clear
  | reads

/-- The values that have left a channel. -/
def taken {α : Type} {cap : Nat} (ch ch' : Chan α cap) : List α :=
  ch.buf.take (ch.buf.length - ch'.buf.length)

/-- The values that have come into a channel. -/
def added {α : Type} {cap : Nat} (ch ch' : Chan α cap) : List α := ch'.buf.drop ch.buf.length

/-- `conn.run` has made a step. -/
def State.afterRun (s : State k) : Outcome k → State k
  | .ok cn _ =>
      { s with
          cn := cn
          got := s.got ++ taken s.cn.newBlocks cn.newBlocks
          received := s.received ++ taken s.cn.oldBlocks cn.oldBlocks }
  | .panic p => { s with panic := some p }

/-- `handleReads` has made a step. -/
def State.afterReads (s : State k) (net : List Seg) : Outcome k → State k
  | .ok cn _ =>
      { s with cn := cn, net := net, posted := s.posted ++ added s.cn.oldBlocks cn.oldBlocks }
  | .panic p => { s with panic := some p }

/-- What a `Read` answers, and what the socket delivers after it. A socket that was closed on this
side answers with an error. -/
def State.input (s : State k) : Option (ReadInput × List Seg) :=
  if s.cn.closed then some (.error, s.net)
  else
    match Seg.fetch s.cn.reads.room s.net with
    | .got bytes net => some (.data bytes, net)
    | .stop .blocked => none
    | .stop .eof => some (.eof, s.net)
    | .stop (.error _) => some (.error, s.net)

/-- One step of `handleReads`. -/
def readsStep (s : State k) : Option (State k) :=
  match s.cn.reads with
  | .read | .value _ =>
      s.input.bind fun (inp, net) => (s.cn.handleReadsStep inp).map (s.afterReads net)
  -- Elsewhere nothing is read, and the input is not looked at.
  | _ => (s.cn.handleReadsStep .eof).map (s.afterReads s.net)

/-- Let `conn.run` go on at `pc`. -/
def State.setPc (s : State k) (pc : ConnPc k) : State k := { s with cn := { s.cn with pc := pc } }

/-- One step of the connection or of what is around it. -/
def step (s : State k) (l : Label k) : Option (State k) :=
  if s.panic.isSome then none
  else
    match l with
    | .send b =>
        match s.cn.newBlocks.send b with
        | .sent q => some { s with cn := { s.cn with newBlocks := q }, sent := s.sent ++ [b] }
        | _ => none
    | .oldConn =>
        if s.cn.pc = .sendOld then some { s.setPc .drainNew with retired := true } else none
    | .closeNewBlocks =>
        -- `socket.run` closes the channel of a connection it has received on `oldConns`.
        if s.retired then
          s.cn.newBlocks.close.map fun q => { s with cn := { s.cn with newBlocks := q } }
        else none
    -- The number of the connection only shows up in messages.
    | .run ch => (s.cn.runStep 0 ch).map s.afterRun
    | .unref zero =>
        match s.cn.pc with
        | .unref b next =>
            some { s.setPc (if zero then .clear b next else next.pc) with
              unrefs := s.unrefs ++ [b] }
        | _ => none
    | .clear =>
        match s.cn.pc with
        | .clear _ next => some (s.setPc next.pc)
        | _ => none
    | .reads => readsStep s

/-- A new connection whose client sends `net`. -/
def system (k : Conf) (net : List Seg) : System (State k) (Label k) where
  init := ⟨.fresh k, net, false, none, [], [], [], [], []⟩
  step := step

end Single

end Testimony.Daemon
