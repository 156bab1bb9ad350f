import Testimony.Client.Block
import Testimony.Lib.Transition

/-!
# `Testimony.Client.Calls`: any sequence of calls on one connection

The two return functions as whole calls, with their `send_be_32`, and a program that calls them
and `testimony_get_block` one after the other as it likes: it may return a block twice, return
it by the two functions, or return more packets than there are. All it needs for a return call is
a pointer that `testimony_get_block` has given it.

The number of packets in the header of a block is read at each call. It is a choice of the
environment, as a block that is returned too early may be filled again at any time.
-/

set_option autoImplicit false

namespace Testimony.Client

open Lib

/-! ### The return functions -/

/-- What a return call has done: the new counts, the index it has sent, if any, and what it
returns. -/
structure Returned where
  t : T
  sent : List UInt32
  result : Except (Errno × ReturnMsg) Unit

/-- The `send_be_32` of `testimony_return_block`, with the error of a failed `send`. -/
def sendIndex (t : T) (blockidx : UInt32) : Option Nat → Returned
  | none => ⟨t, [blockidx], .ok ()⟩
  | some errno => ⟨t, [], .error (.sys errno, .send)⟩

/-- `testimony_return_block`. -/
def returnBlockCall (t : T) (block : Nat) (numPkts : UInt32) (errno : Option Nat) : Returned :=
  match returnBlock t block numPkts with
  | (.ok blockidx, t) => sendIndex t blockidx errno
  | (.error e, t) => ⟨t, [], .error e⟩

/-- `testimony_return_packets`. -/
def returnPacketsCall (t : T) (block : Nat) (packets numPkts : UInt32) (errno : Option Nat) :
    Returned :=
  match returnPackets t block packets with
  | (.ok true, t) => returnBlockCall t block numPkts errno
  | (.ok false, t) => ⟨t, [], .ok ()⟩
  | (.error e, t) => ⟨t, [], .error e⟩

/-- A return call. -/
inductive Return where
  | block
  | packets (amount : UInt32)
  deriving DecidableEq

/-- What the call does. -/
def Return.call (t : T) (block : Nat) (numPkts : UInt32) (errno : Option Nat) : Return → Returned
  | .block => returnBlockCall t block numPkts errno
  | .packets amount => returnPacketsCall t block amount numPkts errno

/-! ### Sequences of calls -/

/-- What a program can note of a call: a block that `testimony_get_block` has returned, with the
number of packets in its header, or a return call for a block and whether it has returned 0. -/
inductive Entry where
  | received (i numPkts : UInt32)
  | returned (r : Return) (i : UInt32) (ok : Bool)

/-- A client and what a program has done with it: the blocks it has pointers of, the histories of
the blocks `testimony_get_block` has returned and of the indexes that were sent back, and what the
program can note of its calls. -/
structure Calls where
  t : T
  seen : List UInt32
  given : List UInt32
  sent : List UInt32
  notes : List Entry

/-- The next call. -/
inductive Op where
  | get (timeoutMillis : Int) (polls : List Poll) (numPkts : UInt32)
  | ret (r : Return) (i : UInt32) (numPkts : UInt32) (errno : Option Nat)

/-- One call. It is not enabled if it blocks for ever, or if the program has no pointer of the
block. -/
def Calls.step (s : Calls) : Op → Option Calls
  | .get timeoutMillis polls numPkts =>
      match readIndex s.t timeoutMillis polls with
      | .ok (some i) sock =>
          -- `*block` is set before the count is swapped, so the program has it in any case.
          let seen := if i.toNat < s.t.conn.blockNr then s.seen ++ [i] else s.seen
          match claimBlock { s.t with sock := sock } i numPkts with
          | (.ok _, t) =>
              some { s with
                t := t
                seen := seen
                given := s.given ++ [i]
                notes := s.notes ++ [.received i numPkts] }
          | (.error _, t) => some { s with t := t, seen := seen }
      -- A timeout returns 0 with a null pointer.
      | .ok none sock => some { s with t := { s.t with sock := sock } }
      | .error (.fail _ _) sock => some { s with t := { s.t with sock := sock } }
      | .error .blocked _ => none
  | .ret r i numPkts errno =>
      if i ∈ s.seen then
        let out := r.call s.t (s.t.block i.toNat) numPkts errno
        some { s with
          t := out.t
          sent := s.sent ++ out.sent
          notes := s.notes ++ [.returned r i out.result.isOk] }
      else none

/-- The calls on a connection. -/
def callSystem (t : T) : System Calls Op where
  init := ⟨t, [], [], [], []⟩
  step := Calls.step

/-- Calls of `testimony_return_packets` for one block, one after the other. -/
def returnAll (block : Nat) (numPkts : UInt32) : T → List UInt32 → T × List UInt32
  | t, [] => (t, [])
  | t, packets :: amounts =>
      let out := returnPacketsCall t block packets numPkts none
      let rest := returnAll block numPkts out.t amounts
      (rest.1, out.sent ++ rest.2)

end Testimony.Client
