import Testimony.Daemon.State

/-!
# `Testimony.Daemon.Log`: the history of one connection

The log of a run, read for one connection: the blocks it marked as outstanding (`marks`), the
bytes it wrote to the client (`written`), and for each block the sequence of its marks and
accepted returns (`trips`).
-/

set_option autoImplicit false

namespace Testimony.Daemon

open Lib

variable {k : Conf}

/-- The connection an event belongs to. -/
def Event.conn : Event k → Option ConnId
  | .register c | .mark c _ | .wrote c _ | .accept c _ => some c
  | _ => none

/-- The block that an event marks as outstanding at connection `c`. -/
def Event.marked (c : ConnId) : Event k → Option k.Index
  | .mark d b => if d = c then some b else none
  | _ => none

/-- The bytes that an event writes to connection `c`. -/
def Event.bytes (c : ConnId) : Event k → List UInt8
  | .wrote d bytes => if d = c then bytes else []
  | _ => []

/-- The phase of block `b` at connection `c` that an event begins: `0` for a mark, `1` for an
accepted return. -/
def Event.trip (c : ConnId) (b : k.Index) : Event k → Option Nat
  | .mark d b' => if d = c ∧ b' = b then some 0 else none
  | .accept d b' => if d = c ∧ b' = b then some 1 else none
  | _ => none

/-- The blocks connection `c` has marked as outstanding. -/
def marks (c : ConnId) (log : List (Event k)) : List k.Index := log.filterMap (Event.marked c)

/-- The bytes connection `c` has written to its client. -/
def written (c : ConnId) (log : List (Event k)) : List UInt8 := log.flatMap (Event.bytes c)

/-- The marks and the accepted returns of block `b` at connection `c`. -/
def trips (c : ConnId) (b : k.Index) (log : List (Event k)) : List Nat :=
  log.filterMap (Event.trip c b)

/-- What `conn.run` sends for a list of blocks. -/
def encode (bs : List k.Index) : List UInt8 :=
  bs.flatMap fun b : k.Index => BigEndian.putUint32 (UInt32.ofNat b)

/-- Marks are collected event by event. -/
theorem marks_append (c : ConnId) (log es : List (Event k)) :
    marks c (log ++ es) = marks c log ++ marks c es := List.filterMap_append

/-- The bytes written are collected event by event. -/
theorem written_append (c : ConnId) (log es : List (Event k)) :
    written c (log ++ es) = written c log ++ written c es := List.flatMap_append

/-- Marks and returns of a block are collected event by event. -/
theorem trips_append (c : ConnId) (b : k.Index) (log es : List (Event k)) :
    trips c b (log ++ es) = trips c b log ++ trips c b es := List.filterMap_append

/-- Indexes are written one after the other. -/
theorem encode_append (l₁ l₂ : List k.Index) : encode (l₁ ++ l₂) = encode l₁ ++ encode l₂ :=
  List.flatMap_append

/-- One index is four bytes, big-endian. -/
theorem encode_singleton (b : k.Index) :
    encode [b] = BigEndian.putUint32 (UInt32.ofNat b) := by
  simp [encode]

end Testimony.Daemon
