import Testimony.Daemon.Step

/-!
# `Testimony.Proofs.Daemon.Moves`: what a step can do

The step functions of `Daemon.Step` are read back here as relations, one constructor for
each way through the code, with the label that leads there and the facts the branch has tested.
Every invariant of the development is a case analysis over these constructors, and none of them
takes a step function apart again.

`Conn.RunMove` and `Conn.ReadsMove` are the steps inside one connection. `Move` is a step of
the whole socket that does not kill the process, and `Death` lists what a step that kills it
has seen. `step_cases` joins them: a step is a `Move`, a failing `WaitForBlocks`, or a
`Death`.
-/

set_option autoImplicit false

namespace Testimony.Daemon

open Lib

variable {k : Conf}

/-- The steps of `conn.run` that stay inside connection `c`, with the choice that leads to each
of them and the events it records. -/
inductive Conn.RunMove (c : ConnId) (cn : Conn k) :
    ConnChoice → Conn k → List (Event k) → Prop
  | recvNew {b : k.Index} {q : Chan k.Index k.numBlocks} (hpc : cn.pc = .select)
      (hq : cn.newBlocks.recv = .got b q) :
      RunMove c cn .newBlock { cn with newBlocks := q, pc := .record b, out := [] } []
  | accept {b : k.Index} {q : Chan Nat k.numBlocks} (hpc : cn.pc = .select)
      (hq : cn.oldBlocks.recv = .got (b.val + 1) q) (hb : cn.outstanding b = true) :
      RunMove c cn .oldBlock { cn with
        oldBlocks := q
        outstanding := Function.update cn.outstanding b false
        pc := .unref b .select } [.accept c b]
  | reject {v : Nat} {q : Chan Nat k.numBlocks} (hpc : cn.pc = .select)
      (hq : cn.oldBlocks.recv = .got v q)
      (hv : v = 0 ∨ ∃ b : k.Index, v = b.val + 1 ∧ cn.outstanding b = false) :
      RunMove c cn .oldBlock { cn with oldBlocks := q, pc := .close } []
  | endOfReads (hpc : cn.pc = .select) (hq : cn.oldBlocks.recv = .closed) :
      RunMove c cn .oldBlock { cn with pc := .close } []
  | mark {b : k.Index} (hpc : cn.pc = .record b) (hb : cn.outstanding b = false) :
      RunMove c cn .go { cn with
        outstanding := Function.update cn.outstanding b true
        out := cn.out ++ BigEndian.putUint32 (UInt32.ofNat b)
        pc := .batch } [.mark c b]
  | batchMore {b : k.Index} {q : Chan k.Index k.numBlocks} (hpc : cn.pc = .batch)
      (hq : cn.newBlocks.recv = .got b q) :
      RunMove c cn .go { cn with newBlocks := q, pc := .record b } []
  | batchDone (hpc : cn.pc = .batch) (hq : cn.newBlocks.recv = .empty) :
      RunMove c cn .go { cn with pc := .write cn.out } []
  | wrote {rest : List UInt8} {n : Nat} (hpc : cn.pc = .write rest) (hn : 0 < n)
      (hle : n ≤ rest.length) :
      RunMove c cn (.wrote n)
        { cn with pc := if rest.drop n = [] then .select else .write (rest.drop n) }
        [.wrote c (rest.take n)]
  | writeError {rest : List UInt8} (hpc : cn.pc = .write rest) :
      RunMove c cn .writeError { cn with pc := .close } []
  | close (hpc : cn.pc = .close) : RunMove c cn .go { cn with closed := true, pc := .sendOld } []
  | drainNew {b : k.Index} {q : Chan k.Index k.numBlocks} (hpc : cn.pc = .drainNew)
      (hq : cn.newBlocks.recv = .got b q) :
      RunMove c cn .go { cn with newBlocks := q, pc := .unref b .drainNew } []
  | drainNewDone (hpc : cn.pc = .drainNew) (hq : cn.newBlocks.recv = .closed) :
      RunMove c cn .go { cn with pc := .drainOld } []
  | drainOld {v : Nat} {q : Chan Nat k.numBlocks} (hpc : cn.pc = .drainOld)
      (hq : cn.oldBlocks.recv = .got v q) : RunMove c cn .go { cn with oldBlocks := q } []
  | drainOldDone (hpc : cn.pc = .drainOld) (hq : cn.oldBlocks.recv = .closed) :
      RunMove c cn .go { cn with pc := .sweep 0 } []
  | sweepHit {b : k.Index} (hpc : cn.pc = .sweep b) (hb : cn.outstanding b = true) :
      RunMove c cn .go { cn with pc := .unref b (.sweep (b.val + 1)) } []
  | sweepMiss {b : k.Index} (hpc : cn.pc = .sweep b) (hb : cn.outstanding b = false) :
      RunMove c cn .go { cn with pc := .sweep (b.val + 1) } []
  | sweepDone {i : Nat} (hpc : cn.pc = .sweep i) (hi : k.numBlocks ≤ i) :
      RunMove c cn .go { cn with pc := .returned } []

/-- The ways `conn.run` can kill the process outside `unref`. -/
inductive Conn.RunDeath (c : ConnId) (cn : Conn k) : Panic → Prop
  | nilBlock (hpc : cn.pc = .select ∨ cn.pc = .batch) (hq : cn.newBlocks.recv = .closed) :
      RunDeath c cn .nilBlock
  | alreadyOutstanding {b : k.Index} (hpc : cn.pc = .record b) (hb : cn.outstanding b = true) :
      RunDeath c cn (.alreadyOutstanding c b)
  | indexOutOfRange {i : Nat} {q : Chan Nat k.numBlocks} (hpc : cn.pc = .select)
      (hq : cn.oldBlocks.recv = .got (i + 1) q) (hi : k.numBlocks ≤ i) :
      RunDeath c cn (.indexOutOfRange c i)

/-- `handleReturn` in its three outcomes. -/
theorem Conn.handleReturn_cases {cn : Conn k} {c : ConnId} {v : Nat}
    {q : Chan Nat k.numBlocks} {o : Outcome k} (hpc : cn.pc = .select)
    (hq : cn.oldBlocks.recv = .got v q)
    (h : { cn with oldBlocks := q }.handleReturn c v = o) :
    (∃ cn' es, o = .ok cn' es ∧ cn.RunMove c .oldBlock cn' es) ∨
      ∃ p, o = .panic p ∧ cn.RunDeath c p := by
  subst h
  unfold Conn.handleReturn
  split
  · exact .inl ⟨_, _, rfl, .reject hpc hq (.inl rfl)⟩
  · rename_i i
    split
    · rename_i hi
      split
      · rename_i hout
        exact .inl ⟨_, _, rfl, .accept (b := ⟨i, hi⟩) hpc hq hout⟩
      · rename_i hout
        exact .inl ⟨_, _, rfl, .reject hpc hq (.inr ⟨⟨i, hi⟩, rfl, by simpa using hout⟩)⟩
    · rename_i hi
      exact .inr ⟨_, rfl, .indexOutOfRange hpc hq (by omega)⟩

/-- A step of `conn.run` inside its connection is a move or a death. -/
theorem Conn.runStep_cases {cn : Conn k} {c : ConnId} {ch : ConnChoice} {o : Outcome k}
    (h : cn.runStep c ch = some o) :
    (∃ cn' es, o = .ok cn' es ∧ cn.RunMove c ch cn' es) ∨ ∃ p, o = .panic p ∧ cn.RunDeath c p := by
  unfold Conn.runStep at h
  split at h
  -- The two cases of the `select`.
  case h_1 hpc =>
    split at h <;> cases h
    · exact .inl ⟨_, _, rfl, .recvNew hpc ‹_›⟩
    · exact .inr ⟨_, rfl, .nilBlock (.inl hpc) ‹_›⟩
  case h_2 hpc =>
    split at h <;> simp only [Option.some.injEq, reduceCtorEq] at h
    · exact Conn.handleReturn_cases hpc ‹_› h
    · cases h
      exact .inl ⟨_, _, rfl, .endOfReads hpc ‹_›⟩
  -- The batch: each block is marked, more are taken while there are any, and all is written.
  case h_3 hpc =>
    split at h <;> cases h
    · exact .inr ⟨_, rfl, .alreadyOutstanding hpc ‹_›⟩
    · rename_i hb
      exact .inl ⟨_, _, rfl, .mark hpc (Bool.eq_false_of_not_eq_true hb)⟩
  case h_4 hpc =>
    split at h <;> cases h
    · exact .inl ⟨_, _, rfl, .batchMore hpc ‹_›⟩
    · exact .inr ⟨_, rfl, .nilBlock (.inr hpc) ‹_›⟩
    · exact .inl ⟨_, _, rfl, .batchDone hpc ‹_›⟩
  case h_5 hpc =>
    split at h <;> cases h
    rename_i hn
    exact .inl ⟨_, _, rfl, .wrote hpc hn.1 hn.2⟩
  case h_6 hpc => cases h; exact .inl ⟨_, _, rfl, .writeError hpc⟩
  -- Behind the main loop: the channels are drained, and what is outstanding is swept up.
  case h_7 hpc => cases h; exact .inl ⟨_, _, rfl, .close hpc⟩
  case h_8 hpc =>
    split at h <;> cases h
    · exact .inl ⟨_, _, rfl, .drainNew hpc ‹_›⟩
    · exact .inl ⟨_, _, rfl, .drainNewDone hpc ‹_›⟩
  case h_9 hpc =>
    split at h <;> cases h
    · exact .inl ⟨_, _, rfl, .drainOld hpc ‹_›⟩
    · exact .inl ⟨_, _, rfl, .drainOldDone hpc ‹_›⟩
  case h_10 i hpc =>
    split at h
    · rename_i hi
      split at h <;> cases h
      · exact .inl ⟨_, _, rfl, .sweepHit (b := ⟨i, hi⟩) hpc ‹_›⟩
      · rename_i hb
        exact .inl ⟨_, _, rfl, .sweepMiss (b := ⟨i, hi⟩) hpc (Bool.eq_false_of_not_eq_true hb)⟩
    · cases h
      exact .inl ⟨_, _, rfl, .sweepDone hpc (by omega)⟩
  case h_11 => cases h

/-- `handleReads` waits for bytes. -/
def ReadsPc.Reading (pc : ReadsPc) : Prop := pc = .read ∨ ∃ n, pc = .value n

/-- The steps of `handleReads`, with what its `Read` answers. Where it does not read, the answer
is not looked at. -/
inductive Conn.ReadsMove (cn : Conn k) : ReadInput → Conn k → Prop
  | word {bytes : List UInt8} (hpc : cn.reads = .read) (hlen : bytes.length = 4)
      (hopen : cn.closed = false) :
      ReadsMove cn (.data bytes) { cn with
        reads := afterWord (classify k.numBlocks (BigEndian.uint32 bytes)) }
  | short {bytes : List UInt8} (hpc : cn.reads = .read) (hpos : 0 < bytes.length)
      (hlen : bytes.length < 4) (hopen : cn.closed = false) :
      ReadsMove cn (.data bytes) { cn with reads := .closeOldBlocks }
  | stop {inp : ReadInput} (hpc : cn.reads.Reading) (hinp : inp = .eof ∨ inp = .error) :
      ReadsMove cn inp { cn with reads := .closeOldBlocks }
  | value {n : Nat} {bytes : List UInt8} (hpc : cn.reads = .value n) (hpos : 0 < bytes.length)
      (hlen : bytes.length ≤ n) (hopen : cn.closed = false) :
      ReadsMove cn (.data bytes) { cn with
        reads := if bytes.length = n then .read else .value (n - bytes.length) }
  | post {inp : ReadInput} {v : Nat} {q : Chan Nat k.numBlocks} (hpc : cn.reads = .post v)
      (hq : cn.oldBlocks.send v = .sent q) :
      ReadsMove cn inp { cn with oldBlocks := q, reads := .read }
  | closeOldBlocks {inp : ReadInput} {q : Chan Nat k.numBlocks}
      (hpc : cn.reads = .closeOldBlocks) (hq : cn.oldBlocks.close = some q) :
      ReadsMove cn inp { cn with oldBlocks := q, reads := .done }

/-- The ways `handleReads` can kill the process. -/
inductive Conn.ReadsDeath (cn : Conn k) : Panic → Prop
  | sendOnClosed {v : Nat} (hpc : cn.reads = .post v) (hq : cn.oldBlocks.closed = true) :
      ReadsDeath cn .sendOnClosed
  | closeOfClosed (hpc : cn.reads = .closeOldBlocks) (hq : cn.oldBlocks.closed = true) :
      ReadsDeath cn .closeOfClosed

/-- An answer of a `Read` without bytes is the end of the stream or an error. -/
theorem ReadInput.eof_or_error {inp : ReadInput} (h : ∀ bytes, inp ≠ .data bytes) :
    inp = .eof ∨ inp = .error := by
  cases inp with
  | data bytes => exact absurd rfl (h bytes)
  | eof => exact .inl rfl
  | error => exact .inr rfl

/-- A step of `handleReads` is a move or a death, and records nothing. -/
theorem Conn.handleReadsStep_cases {cn : Conn k} {inp : ReadInput} {o : Outcome k}
    (h : cn.handleReadsStep inp = some o) :
    (∃ cn', o = .ok cn' [] ∧ cn.ReadsMove inp cn') ∨ ∃ p, o = .panic p ∧ cn.ReadsDeath p := by
  unfold Conn.handleReadsStep at h
  split at h
  -- A header, or an error.
  case h_1 hpc =>
    split at h
    · rename_i hbytes
      split at h <;> cases h
      · exact .inl ⟨_, rfl, .word hpc ‹_› hbytes.2.2⟩
      · rename_i hlen
        have hlt := Nat.lt_of_le_of_ne hbytes.2.1 hlen
        exact .inl ⟨_, rfl, .short hpc hbytes.1 hlt hbytes.2.2⟩
    · cases h
  case h_2 hpc hinp =>
    cases h
    exact .inl ⟨_, rfl, .stop (.inl hpc) (ReadInput.eof_or_error hinp)⟩
  -- A part of a value, or an error.
  case h_3 hpc =>
    split at h
    · rename_i hbytes
      cases h
      exact .inl ⟨_, rfl, .value hpc hbytes.1 hbytes.2.1 hbytes.2.2⟩
    · cases h
  case h_4 hpc hinp =>
    cases h
    exact .inl ⟨_, rfl, .stop (.inr ⟨_, hpc⟩) (ReadInput.eof_or_error hinp)⟩
  case h_5 hpc =>
    split at h <;> cases h
    · exact .inl ⟨_, rfl, .post hpc ‹_›⟩
    · exact .inr ⟨_, rfl, .sendOnClosed hpc (Chan.send_eq_panic ‹_›)⟩
  case h_6 hpc =>
    split at h <;> cases h
    · exact .inl ⟨_, rfl, .closeOldBlocks hpc ‹_›⟩
    · exact .inr ⟨_, rfl, .closeOfClosed hpc (Chan.close_eq_none ‹_›)⟩
  case h_7 => cases h

/-! ### The whole socket -/

/-- The steps of the socket that leave the process alive, each with its label. -/
inductive Move (s : State k) : Label k → State k → Prop
  | fill {b : k.Index} {v : UInt32} (hb : s.blockStatus b = 0) (hv : v ≠ 0) :
      Move s (.fill b v) { s with
        blockStatus := Function.update s.blockStatus b v
        log := s.log ++ [.fill b] }
  | countZero {errno : Nat} {b : k.Index} (hpc : s.watcher = .loadCount b) (hr : s.r b = 0) :
      Move s (.getNewBlocks errno) { s with watcher := .loadStatus b }
  | statusSet {errno : Nat} {b : k.Index} (hpc : s.watcher = .loadStatus b)
      (hb : s.blockStatus b ≠ 0) :
      Move s (.getNewBlocks errno) { s with watcher := .ref b }
  | notReady {errno : Nat} {b : k.Index}
      (hpc : s.watcher = .loadCount b ∨ s.watcher = .loadStatus b) :
      Move s (.getNewBlocks errno) { s with watcher := .wait b }
  | waited {b : k.Index} (hpc : s.watcher = .wait b) :
      Move s (.getNewBlocks 0) { s with watcher := .loadCount b }
  | ref {errno : Nat} {b : k.Index} (hpc : s.watcher = .ref b) :
      Move s (.getNewBlocks errno) { s.addInt32 b 1 with watcher := .send b }
  | dispatch {errno : Nat} {b : k.Index} {q : Chan k.Index k.numBlocks}
      (hpc : s.watcher = .send b) (hq : s.newBlocks.send b = .sent q) :
      Move s (.getNewBlocks errno) { s with
        newBlocks := q
        watcher := .loadCount (k.next b)
        log := s.log ++ [.dispatch b] }
  | register (hpc : s.run = .select) : Move s (.run .newConn) (addNewConn s)
  | oldConn {c : ConnId} (hpc : s.run = .select) (hc : c < s.numConns)
      (hold : (s.conn c).pc = .sendOld) :
      Move s (.run (.oldConn c)) { s.setPc c .drainNew with run := .closeNewBlocks c }
  | take {b : k.Index} {q : Chan k.Index k.numBlocks} (hpc : s.run = .select)
      (hq : s.newBlocks.recv = .got b q) :
      Move s (.run .newBlock) { s with
        newBlocks := q
        run := .fanout b s.currentConns
        log := s.log ++ [.take b] }
  | closeNewBlocks {c : ConnId} {q : Chan k.Index k.numBlocks}
      (hpc : s.run = .closeNewBlocks c) (hq : (s.conn c).newBlocks.close = some q) :
      Move s (.run .go) { s.setConn c { s.conn c with newBlocks := q } with run := .delete c }
  | delete {c : ConnId} (hpc : s.run = .delete c) :
      Move s (.run .go) { s with currentConns := s.currentConns.erase c, run := .select }
  | visit {b : k.Index} {c : ConnId} {todo : Finset ConnId} (hpc : s.run = .fanout b todo)
      (hc : c ∈ todo) :
      Move s (.run (.visit c)) { s.addInt32 b 1 with run := .trySend b c (todo.erase c) }
  | endRange {b : k.Index} (hpc : s.run = .fanout b ∅) :
      Move s (.run .go) { s with run := .unref b none }
  | sent {b : k.Index} {c : ConnId} {todo : Finset ConnId} {q : Chan k.Index k.numBlocks}
      (hpc : s.run = .trySend b c todo) (hq : (s.conn c).newBlocks.send b = .sent q) :
      Move s (.run .go) { s.setConn c { s.conn c with newBlocks := q } with run := .fanout b todo }
  | skipped {b : k.Index} {c : ConnId} {todo : Finset ConnId} (hpc : s.run = .trySend b c todo)
      (hq : (s.conn c).newBlocks.send b = .full) :
      Move s (.run .go) { s with run := .unref b (some todo) }
  | runUnref {b : k.Index} {todo : Option (Finset ConnId)} (hpc : s.run = .unref b todo)
      (hr : 0 < s.r b - 1) : Move s (.run .go) { s.addInt32 b (-1) with run := .resume b todo }
  | runUnrefZero {b : k.Index} {todo : Option (Finset ConnId)} (hpc : s.run = .unref b todo)
      (hr : s.r b - 1 = 0) : Move s (.run .go) { s.addInt32 b (-1) with run := .clear b todo }
  | runClear {b : k.Index} {todo : Option (Finset ConnId)} (hpc : s.run = .clear b todo) :
      Move s (.run .go) { s.clear b with run := .resume b todo }
  | connUnref {c : ConnId} {b : k.Index} {next : Resume} (hc : c < s.numConns)
      (hpc : (s.conn c).pc = .unref b next) (hr : 0 < s.r b - 1) :
      Move s (.conn c .go) ((s.addInt32 b (-1)).setPc c next.pc)
  | connUnrefZero {c : ConnId} {b : k.Index} {next : Resume} (hc : c < s.numConns)
      (hpc : (s.conn c).pc = .unref b next) (hr : s.r b - 1 = 0) :
      Move s (.conn c .go) ((s.addInt32 b (-1)).setPc c (.clear b next))
  | connClear {c : ConnId} {b : k.Index} {next : Resume} (hc : c < s.numConns)
      (hpc : (s.conn c).pc = .clear b next) : Move s (.conn c .go) ((s.clear b).setPc c next.pc)
  | connRun {c : ConnId} {ch : ConnChoice} {cn : Conn k} {es : List (Event k)}
      (hc : c < s.numConns) (hmove : (s.conn c).RunMove c ch cn es) :
      Move s (.conn c ch) ((s.setConn c cn).record es)
  | connReads {c : ConnId} {inp : ReadInput} {cn : Conn k} (hc : c < s.numConns)
      (hmove : (s.conn c).ReadsMove inp cn) : Move s (.reads c inp) (s.setConn c cn)

/-- What a step that kills the process has seen, for every cause but a failing
`WaitForBlocks`. -/
inductive Death (s : State k) : Panic → Prop
  | sendNewBlocks (hq : s.newBlocks.closed = true) : Death s .sendOnClosed
  | recvNewBlocks (hq : s.newBlocks.closed = true) : Death s .nilBlock
  | closeNewBlocks {c : ConnId} (hpc : s.run = .closeNewBlocks c)
      (hq : (s.conn c).newBlocks.closed = true) : Death s .closeOfClosed
  | trySend {b : k.Index} {c : ConnId} {todo : Finset ConnId}
      (hpc : s.run = .trySend b c todo) (hq : (s.conn c).newBlocks.closed = true) :
      Death s .sendOnClosed
  | runUnref {b : k.Index} {todo : Option (Finset ConnId)} {refs : Int}
      (hpc : s.run = .unref b todo) (hr : s.r b - 1 < 0) : Death s (.invalidUnref b refs)
  | connUnref {c : ConnId} {b : k.Index} {next : Resume} {refs : Int} (hc : c < s.numConns)
      (hpc : (s.conn c).pc = .unref b next) (hr : s.r b - 1 < 0) :
      Death s (.invalidUnref b refs)
  | connRun {c : ConnId} {p : Panic} (hc : c < s.numConns) (hd : (s.conn c).RunDeath c p) :
      Death s p
  | connReads {c : ConnId} {p : Panic} (hc : c < s.numConns) (hd : (s.conn c).ReadsDeath p) :
      Death s p

/-- The kernel fills a block that it owns. -/
theorem fillStep_cases {s s' : State k} {b : k.Index} {v : UInt32}
    (h : fillStep s b v = some s') : Move s (.fill b v) s' := by
  unfold fillStep at h
  split at h <;> cases h
  rename_i hb
  exact .fill hb.1 hb.2

/-- A step of `getNewBlocks` is a move, a `WaitForBlocks` that has failed, or a death. -/
theorem getNewBlocksStep_cases {s s' : State k} {errno : Nat}
    (h : getNewBlocksStep s errno = some s') :
    Move s (.getNewBlocks errno) s' ∨ (errno ≠ 0 ∧ s' = s.fail (.waitForBlocks errno)) ∨
      ∃ p, s'.panic = some p ∧ Death s p := by
  unfold getNewBlocksStep at h
  split at h
  -- The two loads of `ready`.
  case h_1 hpc =>
    cases h
    split
    · exact .inl (.countZero hpc ‹_›)
    · exact .inl (.notReady (.inl hpc))
  case h_2 hpc =>
    cases h
    split
    · exact .inl (.statusSet hpc ‹_›)
    · exact .inl (.notReady (.inr hpc))
  -- `WaitForBlocks`
  case h_3 hpc =>
    split at h <;> cases h
    · exact .inr (.inl ⟨‹_›, rfl⟩)
    · rename_i hzero
      obtain rfl : errno = 0 := not_not.mp hzero
      exact .inl (.waited hpc)
  case h_4 hpc => cases h; exact .inl (.ref hpc)
  -- The send, on a channel that is never closed.
  case h_5 hpc =>
    split at h <;> cases h
    · exact .inl (.dispatch hpc ‹_›)
    · exact .inr (.inr ⟨_, rfl, .sendNewBlocks (Chan.send_eq_panic ‹_›)⟩)

/-- The three ways through `unref`. -/
theorem unref_cases (s : State k) (b : k.Index) (zero done : State k → State k) :
    (s.r b - 1 = 0 ∧ s.unref b zero done = zero (s.addInt32 b (-1))) ∨
    (s.r b - 1 < 0 ∧
      s.unref b zero done = (s.addInt32 b (-1)).fail (.invalidUnref b (s.r b - 1))) ∨
    (0 < s.r b - 1 ∧ s.unref b zero done = done (s.addInt32 b (-1))) := by
  unfold State.unref
  rcases Int.lt_trichotomy (s.r b - 1) 0 with hr | hr | hr
  · exact .inr (.inl ⟨hr, by simp [hr, Int.ne_of_lt hr]⟩)
  · exact .inl ⟨hr, by simp [hr]⟩
  · exact .inr (.inr ⟨hr, by simp [Int.ne_of_gt hr, Int.not_lt.mpr (Int.le_of_lt hr)]⟩)

/-- A step of `socket.run` is a move or a death. -/
theorem runStep_cases {s s' : State k} {ch : RunChoice} (h : runStep s ch = some s') :
    Move s (.run ch) s' ∨ ∃ p, s'.panic = some p ∧ Death s p := by
  unfold runStep at h
  split at h
  -- The three cases of the `select`.
  case h_1 hpc => cases h; exact .inl (.register hpc)
  case h_2 hpc =>
    split at h <;> cases h
    rename_i hc
    exact .inl (.oldConn hpc hc.1 hc.2)
  case h_3 hpc =>
    split at h <;> cases h
    · exact .inl (.take hpc ‹_›)
    · exact .inr ⟨_, rfl, .recvNewBlocks (Chan.recv_eq_closed.mp ‹_›).2⟩
  -- A connection that is done.
  case h_4 hpc =>
    split at h <;> cases h
    · exact .inl (.closeNewBlocks hpc ‹_›)
    · exact .inr ⟨_, rfl, .closeNewBlocks hpc (Chan.close_eq_none ‹_›)⟩
  case h_5 hpc => cases h; exact .inl (.delete hpc)
  -- The loop over the connections.
  case h_6 hpc =>
    split at h <;> cases h
    exact .inl (.visit hpc ‹_›)
  case h_7 hpc =>
    split at h <;> cases h
    rename_i htodo
    exact .inl (.endRange (htodo ▸ hpc))
  case h_8 hpc =>
    split at h <;> cases h
    · exact .inl (.sent hpc ‹_›)
    · exact .inl (.skipped hpc ‹_›)
    · exact .inr ⟨_, rfl, .trySend hpc (Chan.send_eq_panic ‹_›)⟩
  -- `unref`, for a connection that takes no more or at the end of the loop.
  case h_9 b todo hpc =>
    simp only [Option.some.injEq] at h
    subst h
    rcases unref_cases s b (fun s => { s with run := .clear b todo })
      (fun s => { s with run := .resume b todo }) with ⟨hr, he⟩ | ⟨hr, he⟩ | ⟨hr, he⟩ <;> rw [he]
    · exact .inl (.runUnrefZero hpc hr)
    · exact .inr ⟨_, rfl, .runUnref hpc hr⟩
    · exact .inl (.runUnref hpc hr)
  case h_10 hpc => cases h; exact .inl (.runClear hpc)
  case h_11 => cases h

/-- A step of the `conn.run` of connection `c` is a move or a death. -/
theorem connRunStep_cases {s s' : State k} {c : ConnId} {ch : ConnChoice}
    (h : connRunStep s c ch = some s') :
    Move s (.conn c ch) s' ∨ ∃ p, s'.panic = some p ∧ Death s p := by
  unfold connRunStep at h
  split at h
  case isFalse => cases h
  case isTrue hc =>
    split at h
    case h_1 b next hpc =>
      simp only [Option.some.injEq] at h
      subst h
      rcases unref_cases s b (fun s => s.setPc c (.clear b next))
        (fun s => s.setPc c next.pc) with ⟨hr, he⟩ | ⟨hr, he⟩ | ⟨hr, he⟩ <;> rw [he]
      · exact .inl (.connUnrefZero hc hpc hr)
      · exact .inr ⟨_, rfl, .connUnref hc hpc hr⟩
      · exact .inl (.connUnref hc hpc hr)
    case h_2 hpc => cases h; exact .inl (.connClear hc hpc)
    case h_3 =>
      obtain ⟨o, ho, rfl⟩ := Option.map_eq_some_iff.mp h
      rcases Conn.runStep_cases ho with ⟨cn, es, rfl, hm⟩ | ⟨p, rfl, hd⟩
      · exact .inl (.connRun hc hm)
      · exact .inr ⟨p, rfl, .connRun hc hd⟩

/-- A step of the `handleReads` of connection `c` is a move or a death. -/
theorem handleReadsStep_cases {s s' : State k} {c : ConnId} {inp : ReadInput}
    (h : handleReadsStep s c inp = some s') :
    Move s (.reads c inp) s' ∨ ∃ p, s'.panic = some p ∧ Death s p := by
  unfold handleReadsStep at h
  split at h
  case isFalse => cases h
  case isTrue hc =>
    obtain ⟨o, ho, rfl⟩ := Option.map_eq_some_iff.mp h
    rcases Conn.handleReadsStep_cases ho with ⟨cn, rfl, hm⟩ | ⟨p, rfl, hd⟩
    · refine .inl ?_
      have hm' := Move.connReads hc hm
      simpa [State.apply, State.record] using hm'
    · exact .inr ⟨p, rfl, .connReads hc hd⟩

/-- `WaitForBlocks` has failed, and `getNewBlocks` panics. -/
def WaitFails (s : State k) (l : Label k) (s' : State k) : Prop :=
  ∃ errno, errno ≠ 0 ∧ l = .getNewBlocks errno ∧ s' = s.fail (.waitForBlocks errno)

/-- A step starts in a living process. It is a move, a failing `WaitForBlocks`, or a
death. -/
theorem step_cases {s s' : State k} {l : Label k} (h : step s l = some s') :
    s.panic = none ∧ (Move s l s' ∨ WaitFails s l s' ∨
      ∃ p, s'.panic = some p ∧ Death s p) := by
  unfold step at h
  split at h
  case isTrue => cases h
  case isFalse hp =>
    refine ⟨by simpa using hp, ?_⟩
    cases l with
    | fill b v => exact .inl (fillStep_cases h)
    | getNewBlocks errno =>
        rcases getNewBlocksStep_cases h with hm | ⟨hne, he⟩ | hd
        · exact .inl hm
        · exact .inr (.inl ⟨errno, hne, rfl, he⟩)
        · exact .inr (.inr hd)
    | run ch => exact (runStep_cases h).imp_right .inr
    | conn c ch => exact (connRunStep_cases h).imp_right .inr
    | reads c inp => exact (handleReadsStep_cases h).imp_right .inr

/-- The log only grows. -/
theorem Move.log_le {s s' : State k} {l : Label k} (hm : Move s l s') :
    ∃ es, s'.log = s.log ++ es := by
  cases hm <;> first | exact ⟨[], (List.append_nil _).symm⟩ | exact ⟨_, rfl⟩

/-! ### Parts of runs

The runs on which the results are seen at work are put together from these. -/

/-- `getNewBlocks` finds the block that it watches filled, and sends it to `socket.run`. -/
def dispatchRun : List (Label k) :=
  [.getNewBlocks 0, .getNewBlocks 0, .getNewBlocks 0, .getNewBlocks 0]

/-- `socket.run` takes a block and sends it to connection `c`. It still holds it itself. -/
def fanOutRun (c : ConnId) : List (Label k) :=
  [.run .newBlock, .run (.visit c), .run .go]

/-- The `conn.run` of `c` takes a block, marks it and writes its index in one piece. -/
def writeRun (c : ConnId) : List (Label k) :=
  [.conn c .newBlock, .conn c .go, .conn c .go, .conn c (.wrote 4)]

/-- The kernel fills block `b`, and its index is written to the client of connection `c`. -/
def deliverRun (b : k.Index) (c : ConnId) : List (Label k) :=
  .fill b 1 :: dispatchRun ++ fanOutRun c ++ writeRun c

end Testimony.Daemon
