import Mathlib.Data.List.Basic

/-!
# `Testimony.Lib.Socket`: reading from a stream socket

A stream socket keeps the order of the bytes and nothing else: how many of them one `recv`
returns is up to the kernel, a signal may interrupt it, and the stream may end. `Seg` is one
thing a reader meets, and a list of them is everything it will ever meet. When the list is
used up the reader blocks.

`fetch n` is `recv` with a buffer of `n` bytes, called again after a signal. `pending` is
what a reader can still get, with the cuts forgotten, and `ending` is what stands behind it.
`fetch_got` and `fetch_stop` say that `fetch` depends on the cuts only in how much it returns.
-/

set_option autoImplicit false

namespace Lib

/-- What a reader meets: bytes that arrived together, at least one of them, a signal, the end
of the stream, or an error. -/
inductive Seg where
  | data (b : UInt8) (bs : List UInt8)
  | eintr
  | eof
  | error (errno : Nat)
  deriving DecidableEq

/-- Why there is nothing to read. -/
inductive End where
  | blocked
  | eof
  | error (errno : Nat)
  deriving DecidableEq

namespace Seg

/-- Put bytes back in front. -/
def unread : List UInt8 → List Seg → List Seg
  | [], segs => segs
  | b :: bs, segs => .data b bs :: segs

/-- The bytes a reader can still get. -/
def pending : List Seg → List UInt8
  | [] => []
  | .data b bs :: segs => b :: bs ++ pending segs
  | .eintr :: segs => pending segs
  | .eof :: _ => []
  | .error _ :: _ => []

/-- What a reader meets behind them. -/
def ending : List Seg → End
  | [] => .blocked
  | .data _ _ :: segs => ending segs
  | .eintr :: segs => ending segs
  | .eof :: _ => .eof
  | .error errno :: _ => .error errno

/-- The outcome of a read. -/
inductive Fetch where
  | got (bytes : List UInt8) (segs : List Seg)
  | stop (e : End)

/-- `recv` with room for `n` bytes, called again after a signal. What does not fit stays in
the kernel. -/
def fetch (n : Nat) : List Seg → Fetch
  | [] => .stop .blocked
  | .data b bs :: segs => .got ((b :: bs).take n) (unread ((b :: bs).drop n) segs)
  | .eintr :: segs => fetch n segs
  | .eof :: _ => .stop .eof
  | .error errno :: _ => .stop (.error errno)

/-- Bytes that are put back are the first to be read again. -/
theorem pending_unread (bytes : List UInt8) (segs : List Seg) :
    pending (unread bytes segs) = bytes ++ pending segs := by
  cases bytes <;> rfl

/-- Bytes that are put back do not change how the stream ends. -/
theorem ending_unread (bytes : List UInt8) (segs : List Seg) :
    ending (unread bytes segs) = ending segs := by
  cases bytes <;> rfl

/-- With something pending, a read returns the first part of it, at least a byte. -/
theorem fetch_got {n : Nat} (hn : 0 < n) {segs : List Seg} (h : pending segs ≠ []) :
    ∃ bytes rest, fetch n segs = .got bytes rest ∧ bytes ≠ [] ∧ bytes.length ≤ n ∧
      pending segs = bytes ++ pending rest ∧ ending rest = ending segs := by
  induction segs with
  | nil => exact absurd rfl h
  | cons seg segs ih =>
      cases seg with
      | data b bs =>
          refine ⟨_, _, rfl, ?_, ?_, ?_, ?_⟩
          · obtain ⟨n, rfl⟩ := Nat.exists_eq_succ_of_ne_zero (Nat.ne_of_gt hn)
            simp
          · exact List.length_take_le n _
          · rw [pending_unread, ← List.append_assoc, List.take_append_drop]
            rfl
          · rw [ending_unread]
            rfl
      | eintr => exact ih h
      | eof => exact absurd rfl h
      | error errno => exact absurd rfl h

/-- With nothing pending, a read meets the end. -/
theorem fetch_stop (n : Nat) {segs : List Seg} (h : pending segs = []) :
    fetch n segs = .stop (ending segs) := by
  induction segs with
  | nil => rfl
  | cons seg segs ih =>
      cases seg with
      | data b bs => simp [pending] at h
      | eintr => exact ih h
      | eof => rfl
      | error errno => rfl

/-- `segs` is what has come of a stream of which `sent` was sent. Behind an end nothing more
can be read. -/
structure Tracks (segs : List Seg) (sent : List UInt8) : Prop where
  open_eq : ending segs = .blocked → pending segs = sent
  pending_le : pending segs <+: sent

/-- What is added to a stream counts only if the stream has not ended before. -/
theorem ending_append (segs more : List Seg) :
    ending (segs ++ more) = if ending segs = .blocked then ending more else ending segs := by
  induction segs with
  | nil => rfl
  | cons seg segs ih =>
      cases seg with
      | data b bs => exact ih
      | eintr => exact ih
      | eof => rfl
      | error errno => rfl

/-- Bytes that are added to a stream are read only if it has not ended before. -/
theorem pending_append (segs more : List Seg) : pending (segs ++ more) =
    if ending segs = .blocked then pending segs ++ pending more else pending segs := by
  induction segs with
  | nil => rfl
  | cons seg segs ih =>
      cases seg with
      | data b bs =>
          show b :: bs ++ pending (segs ++ more) = _
          rw [ih]
          by_cases hopen : ending segs = .blocked
          · rw [if_pos hopen, if_pos (show ending (.data b bs :: segs) = .blocked from hopen),
              ← List.append_assoc]
            rfl
          · rw [if_neg hopen, if_neg (show ending (.data b bs :: segs) ≠ .blocked from hopen)]
            rfl
      | eintr => exact ih
      | eof => rfl
      | error errno => rfl

/-- More bytes arrive. -/
theorem Tracks.data {segs : List Seg} {sent : List UInt8} (h : Tracks segs sent)
    (bytes : List UInt8) : Tracks (segs ++ unread bytes []) (sent ++ bytes) := by
  have hends : ending (unread bytes []) = .blocked := by rw [ending_unread]; rfl
  have hbytes : pending (unread bytes []) = bytes := by
    rw [pending_unread]
    exact List.append_nil _
  by_cases hopen : ending segs = .blocked
  · have heq : pending (segs ++ unread bytes []) = sent ++ bytes := by
      rw [pending_append, if_pos hopen, hbytes, h.open_eq hopen]
    exact ⟨fun _ => heq, heq ▸ List.prefix_refl _⟩
  · constructor
    · intro hb
      rw [ending_append, if_neg hopen] at hb
      exact absurd hb hopen
    · rw [pending_append, if_neg hopen]
      exact h.pending_le.trans (List.prefix_append _ _)

/-- A signal or an end adds nothing. -/
theorem Tracks.stop {segs : List Seg} {sent : List UInt8} (h : Tracks segs sent) {seg : Seg}
    (hseg : pending [seg] = []) : Tracks (segs ++ [seg]) sent := by
  have heq : pending (segs ++ [seg]) = pending segs := by
    rw [pending_append, hseg]
    split <;> simp
  constructor
  · intro hb
    rw [heq]
    refine h.open_eq (Classical.byContradiction fun hopen => ?_)
    rw [ending_append, if_neg hopen] at hb
    exact hopen hb
  · rw [heq]
    exact h.pending_le

end Seg

end Lib
