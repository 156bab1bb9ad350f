import Testimony.Daemon.State
import Testimony.Lib.Transition

/-!
# `Testimony.Daemon.Step`: the goroutines of one daemon socket

One definition for each goroutine, in the order of the source: `getNewBlocksStep`,
`runStep`, `Conn.runStep` with `connRunStep`, `Conn.handleReadsStep`, and `fillStep` for the
kernel. Each performs the access its program counter stands before, together with the local
work up to the next one. `none` means that the goroutine cannot move: it blocks, or the
choice offered does not fit where it stands.

`system k` interleaves them. A label names the goroutine that moves and settles what the
code leaves open: the case a `select` takes, the order of a `range` over a map, what a
system call answers, what the client sent.
-/

set_option autoImplicit false

namespace Testimony.Daemon

open Lib Wire

variable {k : Conf}

/-! ### Shared memory -/

/-- The process dies with `p`. -/
def State.fail (s : State k) (p : Panic) : State k := { s with panic := some p }

/-- The state with another connection `c`. -/
def State.setConn (s : State k) (c : ConnId) (cn : Conn k) : State k :=
  { s with conn := Function.update s.conn c cn }

/-- Let connection `c` go on at `pc`. -/
def State.setPc (s : State k) (c : ConnId) (pc : ConnPc k) : State k :=
  s.setConn c { s.conn c with pc := pc }

/-- The state with events added to the log. -/
def State.record (s : State k) (es : List (Event k)) : State k := { s with log := s.log ++ es }

/-- `atomic.AddInt32(&b.r, d)`. -/
def State.addInt32 (s : State k) (b : k.Index) (d : Int) : State k :=
  { s with r := Function.update s.r b (s.r b + d) }

/-- The atomic add of `unref`, and what it does with the count it gets back: go on to
`clear`, panic, or be done. -/
def State.unref (s : State k) (b : k.Index) (zero done : State k → State k) : State k :=
  let refs := s.r b - 1
  let s := s.addInt32 b (-1)
  if refs = 0 then zero s
  else if refs < 0 then s.fail (.invalidUnref b refs)
  else done s

/-- `b.cblock().block_status = 0`. -/
def State.clear (s : State k) (b : k.Index) : State k :=
  { s with
      blockStatus := Function.update s.blockStatus b 0
      log := s.log ++ [.clear b] }

/-! ### The kernel -/

/-- The kernel fills a block it owns. -/
def fillStep (s : State k) (b : k.Index) (v : UInt32) : Option (State k) :=
  if s.blockStatus b = 0 ∧ v ≠ 0 then
    some { s with
      blockStatus := Function.update s.blockStatus b v
      log := s.log ++ [.fill b] }
  else none

/-! ### `getNewBlocks` -/

/-- One step of `getNewBlocks`. `errno` is the answer of `C.WaitForBlocks`. -/
def getNewBlocksStep (s : State k) (errno : Nat) : Option (State k) :=
  match s.watcher with
  | .loadCount b =>
      -- `ready` looks at the status only if the count was zero.
      some { s with watcher := if s.r b = 0 then .loadStatus b else .wait b }
  | .loadStatus b =>
      some { s with watcher := if s.blockStatus b ≠ 0 then .ref b else .wait b }
  | .wait b =>
      if errno ≠ 0 then some (s.fail (.waitForBlocks errno))
      else some { s with watcher := .loadCount b }
  | .ref b => some { s.addInt32 b 1 with watcher := .send b }
  | .send b =>
      -- The send waits while the channel is full.
      match s.newBlocks.send b with
      | .sent q =>
          some { s with
            newBlocks := q
            watcher := .loadCount (k.next b)
            log := s.log ++ [.dispatch b] }
      | .full => none
      | .panic => some (s.fail .sendOnClosed)

/-! ### `socket.run` -/

/-- What is left open in `socket.run`: the case its `select` takes, and the connection the
`range` over `currentConns` visits next. -/
inductive RunChoice where
  | newConn
  | oldConn (c : ConnId)
  | newBlock
  | visit (c : ConnId)
  | go
  deriving DecidableEq

/-- `addNewConn`: register the connection and start its goroutines. -/
def addNewConn (s : State k) : State k :=
  { s with
      currentConns := insert s.numConns s.currentConns
      numConns := s.numConns + 1
      conn := Function.update s.conn s.numConns (Conn.fresh k)
      log := s.log ++ [.register s.numConns] }

/-- One step of `socket.run`. The receive from the unbuffered `oldConns` is one step
together with the send of the `conn.run` on the other side. -/
def runStep (s : State k) (ch : RunChoice) : Option (State k) :=
  match s.run, ch with
  | .select, .newConn => some (addNewConn s)
  | .select, .oldConn c =>
      if c < s.numConns ∧ (s.conn c).pc = .sendOld then
        some { s.setPc c .drainNew with run := .closeNewBlocks c }
      else none
  | .select, .newBlock =>
      match s.newBlocks.recv with
      | .got b q =>
          some { s with
            newBlocks := q
            run := .fanout b s.currentConns
            log := s.log ++ [.take b] }
      | .closed => some (s.fail .nilBlock)
      | .empty => none
  | .closeNewBlocks c, .go =>
      match (s.conn c).newBlocks.close with
      | some q => some { s.setConn c { s.conn c with newBlocks := q } with run := .delete c }
      | none => some (s.fail .closeOfClosed)
  | .delete c, .go => some { s with currentConns := s.currentConns.erase c, run := .select }
  | .fanout b todo, .visit c =>
      -- The reference of the connection is taken before the block is offered to it.
      if c ∈ todo then some { s.addInt32 b 1 with run := .trySend b c (todo.erase c) } else none
  | .fanout b todo, .go => if todo = ∅ then some { s with run := .unref b none } else none
  | .trySend b c todo, .go =>
      match (s.conn c).newBlocks.send b with
      | .sent q =>
          some { s.setConn c { s.conn c with newBlocks := q } with run := .fanout b todo }
      -- The `default` case: the connection goes without this block.
      | .full => some { s with run := .unref b (some todo) }
      | .panic => some (s.fail .sendOnClosed)
  | .unref b todo, .go =>
      some (s.unref b (fun s => { s with run := .clear b todo })
        (fun s => { s with run := .resume b todo }))
  | .clear b todo, .go => some { s.clear b with run := .resume b todo }
  | _, _ => none

/-! ### `conn.run` -/

/-- What is left open in `conn.run`: the case its `select` takes, how many bytes the socket
takes at a time, and whether a write fails. -/
inductive ConnChoice where
  | newBlock
  | oldBlock
  | wrote (n : Nat)
  | writeError
  | go
  deriving DecidableEq

/-- How a step inside one connection ends. -/
inductive Outcome (k : Conf) where
  | ok (cn : Conn k) (es : List (Event k))
  | panic (p : Panic)

/-- The `oldBlocks` case of the main loop, on the received value. -/
def Conn.handleReturn (cn : Conn k) (c : ConnId) : Nat → Outcome k
  | 0 => .ok { cn with pc := .close } []
  | i + 1 =>
      if h : i < k.numBlocks then
        if cn.outstanding ⟨i, h⟩ then
          .ok { cn with
            outstanding := Function.update cn.outstanding ⟨i, h⟩ false
            pc := .unref ⟨i, h⟩ .select } [.accept c ⟨i, h⟩]
        else .ok { cn with pc := .close } []
      else .panic (.indexOutOfRange c i)

/-- The steps of `conn.run` that stay inside the connection: all but `unref` and `clear`. -/
def Conn.runStep (cn : Conn k) (c : ConnId) (ch : ConnChoice) : Option (Outcome k) :=
  match cn.pc, ch with
  | .select, .newBlock =>
      match cn.newBlocks.recv with
      | .got b q => some (.ok { cn with newBlocks := q, pc := .record b, out := [] } [])
      | .closed => some (.panic .nilBlock)
      | .empty => none
  | .select, .oldBlock =>
      match cn.oldBlocks.recv with
      | .got v q => some ({ cn with oldBlocks := q }.handleReturn c v)
      -- The zero value of a closed channel.
      | .closed => some (cn.handleReturn c 0)
      | .empty => none
  | .record b, .go =>
      if cn.outstanding b then some (.panic (.alreadyOutstanding c b))
      else
        some (.ok { cn with
          outstanding := Function.update cn.outstanding b true
          out := cn.out ++ BigEndian.putUint32 (UInt32.ofNat b)
          pc := .batch } [.mark c b])
  | .batch, .go =>
      match cn.newBlocks.recv with
      | .got b q => some (.ok { cn with newBlocks := q, pc := .record b } [])
      | .closed => some (.panic .nilBlock)
      | .empty => some (.ok { cn with pc := .write cn.out } [])
  | .write rest, .wrote n =>
      if 0 < n ∧ n ≤ rest.length then
        some (.ok { cn with pc := if rest.drop n = [] then .select else .write (rest.drop n) }
          [.wrote c (rest.take n)])
      else none
  | .write _, .writeError => some (.ok { cn with pc := .close } [])
  | .close, .go => some (.ok { cn with closed := true, pc := .sendOld } [])
  | .drainNew, .go =>
      match cn.newBlocks.recv with
      | .got b q => some (.ok { cn with newBlocks := q, pc := .unref b .drainNew } [])
      -- `socket.run` has closed the channel: the `range` ends.
      | .closed => some (.ok { cn with pc := .drainOld } [])
      | .empty => none
  | .drainOld, .go =>
      match cn.oldBlocks.recv with
      | .got _ q => some (.ok { cn with oldBlocks := q } [])
      | .closed => some (.ok { cn with pc := .sweep 0 } [])
      | .empty => none
  | .sweep i, .go =>
      if h : i < k.numBlocks then
        if cn.outstanding ⟨i, h⟩ then
          some (.ok { cn with pc := .unref ⟨i, h⟩ (.sweep (i + 1)) } [])
        else some (.ok { cn with pc := .sweep (i + 1) } [])
      else some (.ok { cn with pc := .returned } [])
  | _, _ => none

/-- Put the outcome of a step of connection `c` back into the socket. -/
def State.apply (s : State k) (c : ConnId) : Outcome k → State k
  | .ok cn es => (s.setConn c cn).record es
  | .panic p => s.fail p

/-- One step of the `conn.run` of connection `c`. -/
def connRunStep (s : State k) (c : ConnId) (ch : ConnChoice) : Option (State k) :=
  if c < s.numConns then
    match (s.conn c).pc, ch with
    | .unref b next, .go =>
        some (s.unref b (fun s => s.setPc c (.clear b next)) (fun s => s.setPc c next.pc))
    | .clear b next, .go => some ((s.clear b).setPc c next.pc)
    | _, _ => ((s.conn c).runStep c ch).map (s.apply c)
  else none

/-! ### `handleReads` -/

/-- What a word from the client is. -/
inductive Word where
  | tlv (typ : MsgType) (length : Nat)
  | invalid (i : Nat)
  | block (i : Nat)
  deriving DecidableEq, Repr

/-- How `handleReads` reads a word. A TLV of a bad type is logged and read like any other. -/
def classify (numBlocks : Nat) (num : UInt32) : Word :=
  if num &&& 0x80000000 ≠ 0 then .tlv (tlFrom num).1 (tlFrom num).2
  else if numBlocks ≤ num.toNat then .invalid num.toNat
  else .block num.toNat

/-- What a `Read` on the client's socket answers. -/
inductive ReadInput where
  | data (bytes : List UInt8)
  | eof
  | error
  deriving DecidableEq

/-- Where `handleReads` goes on after a word. The extra one lets the receiver tell a block
from a closed channel. `handleTLV` ignores the value and never fails. -/
def afterWord : Word → ReadsPc
  | .tlv _ 0 => .read
  | .tlv _ (n + 1) => .value (n + 1)
  | .invalid _ => .closeOldBlocks
  | .block i => .post (i + 1)

/-- One step of `handleReads`. A socket that was closed on this side delivers no data. -/
def Conn.handleReadsStep (cn : Conn k) (inp : ReadInput) : Option (Outcome k) :=
  match cn.reads, inp with
  | .read, .data bytes =>
      if 0 < bytes.length ∧ bytes.length ≤ 4 ∧ cn.closed = false then
        -- A single `Read`: fewer bytes than the buffer has room for are an error.
        if bytes.length = 4 then
          some (.ok { cn with
            reads := afterWord (classify k.numBlocks (BigEndian.uint32 bytes)) } [])
        else some (.ok { cn with reads := .closeOldBlocks } [])
      else none
  | .read, _ => some (.ok { cn with reads := .closeOldBlocks } [])
  | .value missing, .data bytes =>
      if 0 < bytes.length ∧ bytes.length ≤ missing ∧ cn.closed = false then
        some (.ok { cn with
          reads := if bytes.length = missing then .read
            else .value (missing - bytes.length) } [])
      else none
  | .value _, _ => some (.ok { cn with reads := .closeOldBlocks } [])
  | .post v, _ =>
      -- `handleReads` waits here while `conn.run` is behind by the whole ring.
      match cn.oldBlocks.send v with
      | .sent q => some (.ok { cn with oldBlocks := q, reads := .read } [])
      | .full => none
      | .panic => some (.panic .sendOnClosed)
  | .closeOldBlocks, _ =>
      match cn.oldBlocks.close with
      | some q => some (.ok { cn with oldBlocks := q, reads := .done } [])
      | none => some (.panic .closeOfClosed)
  | .done, _ => none

/-- One step of the `handleReads` of connection `c`. -/
def handleReadsStep (s : State k) (c : ConnId) (inp : ReadInput) : Option (State k) :=
  if c < s.numConns then ((s.conn c).handleReadsStep inp).map (s.apply c) else none

/-! ### The system -/

/-- Who takes the next step, with what it finds outside: the kernel with the status it writes,
`getNewBlocks` with the answer of `poll`, `socket.run` and a `conn.run` with the case of the
`select` or the answer of the write, and `handleReads` with the answer of the read. -/
inductive Label (k : Conf) where
  | fill (b : k.Index) (v : UInt32)
  | getNewBlocks (errno : Nat)
  | run (ch : RunChoice)
  | conn (c : ConnId) (ch : ConnChoice)
  | reads (c : ConnId) (inp : ReadInput)

/-- One step of the socket. Nothing moves once the process is dead. -/
def step (s : State k) (l : Label k) : Option (State k) :=
  if s.panic.isSome then none
  else
    match l with
    | .fill b v => fillStep s b v
    | .getNewBlocks errno => getNewBlocksStep s errno
    | .run ch => runStep s ch
    | .conn c ch => connRunStep s c ch
    | .reads c inp => handleReadsStep s c inp

/-- The socket as a transition system. -/
def system (k : Conf) : System (State k) (Label k) where
  init := State.initial k
  step := step

end Testimony.Daemon
