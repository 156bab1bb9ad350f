import Testimony.Client.Block
import Testimony.Lib.Transition

/-!
# `Testimony.Client.Threads`: counting the packets of a block from many threads

Calls of `testimony_return_packets` for one block, each in a thread of its own. A call subtracts
its amount from the count of the block. If the count it gets back is just its amount, it goes on
with `testimony_return_block`, whose atomic operation and whose `send_be_32` are steps of their
own: the other threads may come in between.

The number of packets in the block's header does not change before the block is returned.
-/

set_option autoImplicit false

namespace Testimony.Client

open Lib

/-- Where a call of `testimony_return_packets` stands. -/
inductive ReturnPc where
  /-- Before `__sync_fetch_and_sub`. -/
  | sub
  /-- In `testimony_return_block`, before `__sync_fetch_and_and`. -/
  | and
  /-- In `testimony_return_block`, before `send_be_32`. -/
  | send (blockidx : UInt32)
  | done (result : Except (Errno × ReturnMsg) Unit)
  deriving DecidableEq

/-- A client and `n` calls. `sent` is the history of the indexes given to `send_be_32`. -/
structure Threads (n : Nat) where
  t : T
  pc : Fin n → ReturnPc
  sent : List UInt32

variable {n : Nat}

/-- Let call `j` go on at `pc`. -/
def Threads.goOn (s : Threads n) (j : Fin n) (t : T) (pc : ReturnPc) : Threads n :=
  { s with t := t, pc := Function.update s.pc j pc }

/-- One step of call `j`, for a block with `numPkts` packets at address `block`. `errno` is the
error of a failed `send`. -/
def Threads.step (block : Nat) (numPkts : UInt32) (packets : Fin n → UInt32) (s : Threads n)
    (j : Fin n) (errno : Option Nat) : Option (Threads n) :=
  match s.pc j with
  | .sub =>
      match returnPackets s.t block (packets j) with
      -- The count was just the amount: this call returns the block.
      | (.ok true, t) => some (s.goOn j t .and)
      | (.ok false, t) => some (s.goOn j t (.done (.ok ())))
      | (.error e, t) => some (s.goOn j t (.done (.error e)))
  | .and =>
      match returnBlock s.t block numPkts with
      | (.ok blockidx, t) => some (s.goOn j t (.send blockidx))
      | (.error e, t) => some (s.goOn j t (.done (.error e)))
  | .send blockidx =>
      some { s.goOn j s.t (.done (match errno with
          | none => .ok ()
          | some e => .error (.sys e, .send))) with
        sent := s.sent ++ [blockidx] }
  | .done _ => none

/-- The calls with the given amounts for one block, which `testimony_get_block` has returned. -/
def threadSystem (t : T) (block : Nat) (numPkts : UInt32) (amounts : List UInt32) :
    System (Threads amounts.length) (Fin amounts.length × Option Nat) where
  init := ⟨t, fun _ => .sub, []⟩
  step s l := s.step block numPkts amounts.get l.1 l.2

end Testimony.Client
