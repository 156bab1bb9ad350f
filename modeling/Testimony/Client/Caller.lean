import Testimony.Client.Block
import Testimony.Lib.Transition

/-!
# `Testimony.Client.Caller`: a program that uses the C client as it should

For every block it gets, the program either calls `testimony_return_block` once or calls
`testimony_return_packets` with positive amounts that add up to the number of packets. It does
so in any order, from any number of threads, while one thread calls `testimony_get_block`.

`Caller` holds the client, where each call stands, and what the program has in hand. A step is
one access to what the threads share: an atomic operation on a block's count, or a message to
the server. Reading from the server is up to the one thread that gets blocks, so its loop is a
single step, taken when it returns: while a call waits, nothing it has read can be seen.

The number of packets of a block does not change while the program has the block, so it is
kept in `Hold`.
-/

set_option autoImplicit false

namespace Testimony.Client

open Lib

/-- A block the program has: how many packets it came with, and how many of them are not
returned yet. -/
structure Hold where
  numPkts : UInt32
  left : UInt32
  deriving DecidableEq

/-- Where `testimony_get_block` stands. -/
inductive GetPc where
  /-- Not called, or still without an index. -/
  | idle
  /-- Before the index is checked and the count is swapped. -/
  | claim (blockidx : UInt32)
  deriving DecidableEq

/-- A call that returned an error. -/
inductive Failure where
  | get (errno : Errno) (msg : GetMsg)
  | ret (errno : Errno) (msg : ReturnMsg)
  deriving DecidableEq

/-- The client and the program. `given` is the history of the blocks
`testimony_get_block` has returned, `failures` that of the calls that failed. -/
structure Caller where
  t : T
  getter : GetPc
  held : Nat → Option Hold
  /-- Calls of `testimony_return_packets` that counted the last packet of a block: before the
  atomic operation of `testimony_return_block`. -/
  resets : List Nat
  /-- Calls of `testimony_return_block` before their `send_be_32`. -/
  sends : List UInt32
  given : List UInt32
  failures : List Failure

/-- A program that has not called anything. -/
def Caller.start (t : T) : Caller where
  t := t
  getter := .idle
  held := fun _ => none
  resets := []
  sends := []
  given := []
  failures := []

/-- What happens next. -/
inductive Call where
  | read (timeoutMillis : Int) (polls : List Poll)
  | claim (numPkts : UInt32)
  | returnBlock (i : Nat)
  | returnPackets (i : Nat) (packets : UInt32)
  | reset (i : Nat) (numPkts : UInt32)
  /-- `send_be_32` of an index, with the error of a failed `send`. -/
  | send (i : UInt32) (errno : Option Nat)

/-- The index behind the block pointer of a return call is on its way to the server, or the
call has failed. -/
def Caller.returned (c : Caller) : Except (Errno × ReturnMsg) UInt32 × T → Caller
  | (.ok i, t) => { c with t := t, sends := c.sends ++ [i] }
  | (.error (e, msg), t) => { c with t := t, failures := c.failures ++ [.ret e msg] }

/-- One step of the program. -/
def Caller.step (c : Caller) : Call → Option Caller
  | .read timeoutMillis polls =>
      match c.getter with
      | .idle =>
          match readIndex c.t timeoutMillis polls with
          | .ok (some i) sock => some { c with t := { c.t with sock := sock }, getter := .claim i }
          | .ok none sock => some { c with t := { c.t with sock := sock } }
          | .error (.fail e msg) sock =>
              some { c with
                t := { c.t with sock := sock }
                failures := c.failures ++ [.get e msg] }
          | .error .blocked _ => none
      | .claim _ => none
  | .claim numPkts =>
      match c.getter with
      | .idle => none
      | .claim i =>
          match claimBlock c.t i numPkts with
          | (.ok _, t) =>
              some { c with
                t := t
                getter := .idle
                held := Function.update c.held i.toNat (some ⟨numPkts, numPkts⟩)
                given := c.given ++ [i] }
          | (.error (e, msg), t) =>
              some { c with t := t, getter := .idle, failures := c.failures ++ [.get e msg] }
  | .returnBlock i =>
      match c.held i with
      | some h =>
          -- No packet of the block has been returned on its own.
          if h.left = h.numPkts then
            some ({ c with held := Function.update c.held i none }.returned
              (returnBlock c.t (c.t.block i) h.numPkts))
          else none
      | none => none
  | .returnPackets i packets =>
      match c.held i with
      | some h =>
          if 0 < packets ∧ packets ≤ h.left then
            let c := { c with
              held := Function.update c.held i
                (if packets = h.left then none else some { h with left := h.left - packets }) }
            match returnPackets c.t (c.t.block i) packets with
            | (.ok true, t) => some { c with t := t, resets := c.resets ++ [i] }
            | (.ok false, t) => some { c with t := t }
            | (.error (e, msg), t) =>
                some { c with t := t, failures := c.failures ++ [.ret e msg] }
          else none
      | none => none
  | .reset i numPkts =>
      if i ∈ c.resets then
        some ({ c with resets := c.resets.erase i }.returned
          (returnBlock c.t (c.t.block i) numPkts))
      else none
  | .send i errno =>
      if i ∈ c.sends then
        some { c with
          sends := c.sends.erase i
          failures := match errno with
            | some e => c.failures ++ [.ret (.sys e) .send]
            | none => c.failures }
      else none

/-- The program as a transition system. -/
def callerSystem (t : T) : System Caller Call where
  init := .start t
  step := Caller.step

end Testimony.Client
