import Testimony.Session

/-!
# `Testimony.Capture`: a session with what is in the ring

The daemon and the clients pass indexes around. What they are for is in the ring, the memory that
the kernel fills and that every client maps. Here the ring of a session holds the packets of each
block, as values of any type.

The kernel writes the packets of a block while the block is its own, and then sets the status. The
two are one step. Nobody else writes packets.
-/

set_option autoImplicit false

namespace Testimony.Capture

open Lib Client Daemon

variable {k : Conf} {α : Type}

/-- A session together with the packets: what each block of the ring holds and what the kernel has
written so far. `α` stands for the contents of a block. -/
structure State (k : Conf) (α : Type) where
  session : Session.State k
  /-- What is in each block. -/
  ring : k.Index → Option α
  /-- What the kernel has written, in the order of its fills. -/
  captured : List α

/-- A fill says what the kernel writes. Every other step is one of the session. -/
inductive Label (k : Conf) (α : Type) where
  | fill (b : k.Index) (status : UInt32) (packets : α)
  | session (l : Session.Label k)

/-- The kernel moves. -/
def isFill : Session.Label k → Bool
  | .daemon (.fill _ _) => true
  | _ => false

/-- One step. A fill of the session happens only together with the packets that are written. -/
def step (c : ConnId) (s : State k α) : Label k α → Option (State k α)
  | .fill b status packets =>
      (Session.step c s.session (.daemon (.fill b status))).map fun session =>
        { session := session
          ring := Function.update s.ring b (some packets)
          captured := s.captured ++ [packets] }
  | .session l =>
      if isFill l then none
      else (Session.step c s.session l).map fun session => { s with session := session }

/-- The client `t` at connection `c`, with an empty ring. -/
def system (k : Conf) (α : Type) (c : ConnId) (t : T) : System (State k α) (Label k α) where
  init := ⟨(Session.system k c t).init, fun _ => none, []⟩
  step := step c

end Testimony.Capture
