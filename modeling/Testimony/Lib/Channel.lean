import Mathlib.Data.List.Basic

/-!
# `Testimony.Lib.Channel`: a bounded FIFO channel that can be closed

The channel of the Go language, as one value. `send` answers that the value was queued,
that the buffer is full (a plain send blocks, a `select` with a default moves on), or that
the channel is closed (the program panics). `recv` answers with the oldest value, with
"closed and drained" (the receiver sees the zero value), or with "empty" (it blocks).
Closing a closed channel panics.

The bound is a field of the structure, so no buffer longer than the capacity can be built.
The lemmas read each answer back as facts about the buffer and the closed flag.
-/

set_option autoImplicit false

namespace Lib

/-- A channel of capacity `cap`. The oldest value stands first in the buffer. -/
structure Chan (α : Type) (cap : Nat) where
  buf : List α
  closed : Bool
  length_le : buf.length ≤ cap

namespace Chan

variable {α : Type} {cap : Nat}

/-- `make(chan α, cap)`. -/
def make : Chan α cap := ⟨[], false, Nat.zero_le _⟩

/-- The answers of a send. -/
inductive SendResult (α : Type) (cap : Nat) where
  | sent (ch : Chan α cap)
  | full
  | panic

/-- The answers of a receive. -/
inductive RecvResult (α : Type) (cap : Nat) where
  | got (x : α) (ch : Chan α cap)
  | closed
  | empty

/-- `ch <- x`. -/
def send (ch : Chan α cap) (x : α) : SendResult α cap :=
  if ch.closed then .panic
  else if h : ch.buf.length < cap then
    .sent ⟨ch.buf ++ [x], false, by rw [List.length_append]; exact h⟩
  else .full

/-- `<-ch`. -/
def recv : Chan α cap → RecvResult α cap
  | ⟨x :: rest, closed, h⟩ => .got x ⟨rest, closed, Nat.le_of_succ_le h⟩
  | ⟨[], closed, _⟩ => if closed then .closed else .empty

/-- `close(ch)`; `none` is the panic on a closed channel. -/
def close (ch : Chan α cap) : Option (Chan α cap) :=
  if ch.closed then none else some ⟨ch.buf, true, ch.length_le⟩

/-- A new channel is empty. -/
@[simp] theorem make_buf : (make : Chan α cap).buf = [] := rfl

/-- A new channel is open. -/
@[simp] theorem make_closed : (make : Chan α cap).closed = false := rfl

/-- A value was queued: the channel was open and had room. -/
theorem send_eq_sent {ch ch' : Chan α cap} {x : α} (h : ch.send x = .sent ch') :
    ch.closed = false ∧ ch'.closed = false ∧ ch'.buf = ch.buf ++ [x] := by
  unfold send at h
  split at h
  · cases h
  · split at h
    · cases h
      exact ⟨by simpa using ‹¬ch.closed = true›, rfl, rfl⟩
    · cases h

/-- A full answer: the channel was open and held `cap` values. -/
theorem send_eq_full {ch : Chan α cap} {x : α} (h : ch.send x = .full) :
    ch.closed = false ∧ ch.buf.length = cap := by
  unfold send at h
  split at h
  · cases h
  · split at h
    · cases h
    · rename_i hc hl
      exact ⟨by simpa using hc, Nat.le_antisymm ch.length_le (by omega)⟩

/-- Only a closed channel makes a send panic. -/
theorem send_eq_panic {ch : Chan α cap} {x : α} (h : ch.send x = .panic) :
    ch.closed = true := by
  unfold send at h
  split at h
  · assumption
  · split at h <;> cases h

/-- A received value was the oldest one. -/
theorem recv_eq_got {ch ch' : Chan α cap} {x : α} (h : ch.recv = .got x ch') :
    ch.buf = x :: ch'.buf ∧ ch'.closed = ch.closed := by
  obtain ⟨buf, closed, hle⟩ := ch
  cases buf with
  | nil => cases closed <;> simp [recv] at h
  | cons y rest =>
      simp only [recv, RecvResult.got.injEq] at h
      obtain ⟨rfl, rfl⟩ := h
      exact ⟨rfl, rfl⟩

/-- The closed answer means closed and drained. -/
theorem recv_eq_closed {ch : Chan α cap} : ch.recv = .closed ↔ ch.buf = [] ∧ ch.closed = true := by
  obtain ⟨buf, closed, hle⟩ := ch
  cases buf <;> cases closed <;> simp [recv]

/-- A receive blocks exactly on an open channel with nothing in it. -/
theorem recv_eq_empty {ch : Chan α cap} : ch.recv = .empty ↔ ch.buf = [] ∧ ch.closed = false := by
  obtain ⟨buf, closed, hle⟩ := ch
  cases buf <;> cases closed <;> simp [recv]

/-- Closing an open channel keeps what is in it. -/
theorem close_eq_some {ch ch' : Chan α cap} (h : ch.close = some ch') :
    ch.closed = false ∧ ch'.closed = true ∧ ch'.buf = ch.buf := by
  unfold close at h
  split at h
  · cases h
  · cases h
    exact ⟨by simpa using ‹¬ch.closed = true›, rfl, rfl⟩

/-- Only the close of a closed channel panics. -/
theorem close_eq_none {ch : Chan α cap} (h : ch.close = none) : ch.closed = true := by
  unfold close at h
  split at h
  · assumption
  · cases h

end Chan

end Lib
