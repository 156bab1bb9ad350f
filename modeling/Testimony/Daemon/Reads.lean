import Testimony.Daemon.Step
import Testimony.Lib.Cuts

/-!
# `Testimony.Daemon.Reads`: `handleReads` from its first read to its last

`Conn.handleReadsStep` is one access of `handleReads` among those of the other goroutines. Here it
runs on its own, on a socket that delivers a given stream in given pieces, and somebody takes what
it posts. The result says what it has posted, why it does not go on, and how far it has read.
-/

set_option autoImplicit false

namespace Testimony.Daemon

open Lib

/-- Why `handleReads` does not go on. -/
inductive ReadsStop where
  /-- It waits in a read. -/
  | waiting
  /-- It has returned. -/
  | returned
  deriving DecidableEq

/-- The end of the stream makes it return, and so does an error. -/
def ReadsStop.of : End → ReadsStop
  | .blocked => .waiting
  | .eof => .returned
  | .error _ => .returned

/-- What a run of `handleReads` has done when it stops. -/
structure ReadsResult where
  /-- The values sent on `c.oldBlocks`. -/
  posted : List Nat
  stop : ReadsStop
  /-- The bytes of the stream that it has not read. -/
  unread : List UInt8
  deriving DecidableEq

/-- The same with `v` posted before. -/
def ReadsResult.post (v : Nat) (r : ReadsResult) : ReadsResult := { r with posted := v :: r.posted }

/-- The loop of `handleReads`. Each round reads at least one byte. -/
def readsLoop (numBlocks : Nat) : Nat → List Seg → ReadsResult
  | 0, net => ⟨[], .waiting, Seg.pending net⟩
  | rounds + 1, net =>
      match Seg.fetch 4 net with
      | .stop e => ⟨[], .of e, []⟩
      | .got buf net =>
          -- `n != len(buf)`
          if buf.length ≠ 4 then ⟨[], .returned, Seg.pending net⟩
          else
            match classify numBlocks (BigEndian.uint32 buf) with
            | .tlv _ length =>
                -- `io.ReadFull(c.c, val)`
                match Seg.skip length net with
                | some net => readsLoop numBlocks rounds net
                | none => ⟨[], .of (Seg.ending net), []⟩
            | .invalid _ => ⟨[], .returned, Seg.pending net⟩
            -- The extra one keeps block 0 apart from the zero of a closed channel.
            | .block i => (readsLoop numBlocks rounds net).post (i + 1)

/-- `handleReads` on a socket. -/
def handleReads (numBlocks : Nat) (net : List Seg) : ReadsResult :=
  readsLoop numBlocks ((Seg.pending net).length + 1) net

end Testimony.Daemon
