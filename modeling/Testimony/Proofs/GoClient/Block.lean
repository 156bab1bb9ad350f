import Testimony.Proofs.GoClient.Read

/-!
# `Testimony.Proofs.GoClient.Block`: what `Conn.Block` reads

`blocks_ok`: successive calls of `Block` return the block indexes of a stream of messages, in
order, and skip the TLVs in between. `blocks_short`: there are no others.
-/

set_option autoImplicit false

namespace Testimony.GoClient

open Lib Lib.BigEndian Source Wire

/-- The loop on the head of a message, once the word is read. -/
def indexRound (rounds : Nat) (word : UInt32) : EStateM (Stop BlockError) (List Seg) Nat :=
  let (typ, length) := tlFrom word
  if typeOf typ = typeBlockIndex then pure word.toNat
  else if typeOf typ = typeServerToClient then
    wrap (.readingValue typ length) (readFull length) >>= fun _ => indexLoop rounds
  else throw (.fail (.notServerToClient typ))

/-- One round of the loop reads four bytes and looks at them. -/
theorem indexLoop_succ (rounds : Nat) : indexLoop (rounds + 1) =
    (wrap .readingIndex (readFull 4) >>= fun bytes => indexRound rounds (uint32 bytes)) := rfl

/-- An index ends the loop. -/
theorem reads_indexLoop_block {x : UInt32} (hx : x.toNat < 2 ^ 31) (rounds : Nat) :
    Reads (indexLoop (rounds + 1)) (putUint32 x) x.toNat := by
  rw [indexLoop_succ]
  refine (reads_wrap _ (reads_readFull (putUint32 x))).bind_pure ?_
  rw [uint32_putUint32, indexRound, tlFrom_of_lt hx]
  rfl

/-- A TLV is skipped. -/
theorem steps_indexLoop_tlv (u : Tlv) (rounds : Nat) :
    Steps (indexLoop (rounds + 1)) u.bytes (indexLoop rounds) := by
  rw [indexLoop_succ, Tlv.bytes]
  refine (reads_wrap _ (reads_readFull (putUint32 _))).steps.trans ?_
  rw [uint32_putUint32, indexRound, u.tlFrom_head]
  simp only [u.server]
  rw [if_neg (by decide), if_pos trivial]
  exact (reads_wrap _ (reads_readFull u.val)).steps

/-- The loop finds the first index of a stream. -/
theorem indexLoop_ok {x : UInt32} {xs : List UInt32} (msgs : List Msg) :
    ∀ (rounds : Nat) (segs : List Seg), (∀ y, .block y ∈ msgs → y.toNat < 2 ^ 31) →
    msgs.length ≤ rounds → indexes msgs = x :: xs → pending segs = encodeMsgs msgs →
    ∃ segs' rest, indexLoop rounds segs = .ok x.toNat segs' ∧
      pending segs' = encodeMsgs rest ∧ indexes rest = xs ∧ rest <:+ msgs := by
  induction msgs with
  | nil => intro rounds segs _ _ hx; cases hx
  | cons m msgs ih =>
      intro rounds segs hmsgs hrounds hx hs
      obtain ⟨rounds, rfl⟩ : ∃ r, rounds = r + 1 := ⟨rounds - 1, by
        rw [List.length_cons] at hrounds
        omega⟩
      rw [encodeMsgs_cons] at hs
      cases m with
      | block y =>
          obtain ⟨rfl, rfl⟩ := List.cons.inj hx
          obtain ⟨segs', heq, hpending, -⟩ :=
            reads_indexLoop_block (hmsgs y (List.mem_cons_self ..)) rounds segs _ hs
          exact ⟨segs', msgs, heq, hpending, rfl, List.suffix_cons _ _⟩
      | tlv u =>
          obtain ⟨segs₁, heq, hpending, -⟩ := steps_indexLoop_tlv u rounds segs _ hs
          obtain ⟨segs', rest, heq', hrest⟩ := ih rounds segs₁
            (fun y hy => hmsgs y (List.mem_cons_of_mem _ hy))
            (by rw [List.length_cons] at hrounds; omega) hx hpending
          exact ⟨segs', rest, heq.trans heq', hrest.1, hrest.2.1,
            hrest.2.2.trans (List.suffix_cons _ _)⟩

/-- On a stream without an index it does not return one. -/
theorem halts_indexLoop (msgs : List Msg) : ∀ rounds, indexes msgs = [] → msgs.length < rounds →
    Halts .blocked (indexLoop rounds) (encodeMsgs msgs) := by
  induction msgs with
  | nil =>
      intro rounds _ hrounds
      obtain ⟨rounds, rfl⟩ := Nat.exists_eq_succ_of_ne_zero (Nat.ne_of_gt hrounds)
      exact (halts_wrap _ (halts_readFull (show [].length < 4 by decide))).bind
  | cons m msgs ih =>
      intro rounds hx hrounds
      obtain ⟨rounds, rfl⟩ :=
        Nat.exists_eq_succ_of_ne_zero (Nat.ne_of_gt (Nat.zero_lt_of_lt hrounds))
      cases m with
      | block y => cases hx
      | tlv u =>
          rw [encodeMsgs_cons]
          exact (steps_indexLoop_tlv u rounds).halts
            (ih rounds hx (Nat.lt_of_succ_lt_succ hrounds))

/-! ### `Conn.Block` -/

/-- `Block` reads messages until there is an index, and checks it. -/
theorem block_eq (t : Conn) : t.block =
    ((get >>= fun segs => indexLoop ((pending segs).length + 1)) >>= fun idx =>
      if t.numBlocks ≤ idx then throw (.fail (.invalidIndex idx)) else pure idx) := rfl

/-- A call returns the first index of the stream. -/
theorem block_ok {t : Conn} {msgs : List Msg} {x : UInt32} {xs : List UInt32}
    (hmsgs : ∀ y, .block y ∈ msgs → y.toNat < 2 ^ 31) (hx : indexes msgs = x :: xs)
    (hlt : (x.toNat : Int) < t.numBlocks) {segs : List Seg}
    (hs : pending segs = encodeMsgs msgs) :
    ∃ segs' rest, t.block segs = .ok x.toNat segs' ∧ pending segs' = encodeMsgs rest ∧
      indexes rest = xs ∧ rest <:+ msgs := by
  have hrounds : msgs.length ≤ (pending segs).length + 1 := by
    have := length_le_encodeMsgs msgs
    rw [hs]
    omega
  obtain ⟨segs', rest, heq, hrest⟩ := indexLoop_ok msgs _ segs hmsgs hrounds hx hs
  have hget : (get >>= fun segs => indexLoop ((pending segs).length + 1)) segs =
      .ok x.toNat segs' := heq
  refine ⟨segs', rest, ?_, hrest⟩
  rw [block_eq, bind_ok hget, if_neg (by omega)]
  rfl

/-- A call on a stream without an index returns none. -/
theorem block_short (t : Conn) {msgs : List Msg} (hx : indexes msgs = []) :
    Halts .blocked t.block (encodeMsgs msgs) := by
  rw [block_eq]
  refine (Halts.fueled indexLoop fun rounds hrounds => halts_indexLoop msgs rounds hx ?_).bind
  exact Nat.lt_of_le_of_lt (length_le_encodeMsgs msgs) hrounds

/-- `n` successive calls of `Block`. -/
def Conn.blocks (t : Conn) : Nat → EStateM (Stop BlockError) (List Seg) (List Nat)
  | 0 => pure []
  | n + 1 => t.block >>= fun i => t.blocks n >>= fun is => pure (i :: is)

/-- Successive calls return the indexes of the stream, in order. -/
theorem blocks_ok {t : Conn} (n : Nat) : ∀ (msgs : List Msg) (segs : List Seg),
    (∀ y, .block y ∈ msgs → y.toNat < 2 ^ 31) →
    (∀ y, .block y ∈ msgs → (y.toNat : Int) < t.numBlocks) → n ≤ (indexes msgs).length →
    pending segs = encodeMsgs msgs →
    ∃ segs' rest, t.blocks n segs = .ok (((indexes msgs).take n).map UInt32.toNat) segs' ∧
      pending segs' = encodeMsgs rest ∧ indexes rest = (indexes msgs).drop n := by
  induction n with
  | zero => intro msgs segs _ _ _ hs; exact ⟨segs, msgs, rfl, hs, rfl⟩
  | succ n ih =>
      intro msgs segs hmsgs hlt hn hs
      obtain ⟨x, xs, hx⟩ : ∃ x xs, indexes msgs = x :: xs :=
        List.exists_cons_of_length_pos (Nat.zero_lt_of_lt hn)
      have hmem : Msg.block x ∈ msgs := block_mem_of_index (by rw [hx]; exact List.mem_cons_self ..)
      obtain ⟨segs₁, rest, heq, hpending, hrest, hsuffix⟩ := block_ok hmsgs hx (hlt x hmem) hs
      rw [hx, List.length_cons] at hn
      obtain ⟨segs', rest', heq', hpending', hrest'⟩ := ih rest segs₁
        (fun y hy => hmsgs y (hsuffix.mem hy)) (fun y hy => hlt y (hsuffix.mem hy))
        (by rw [hrest]; omega) hpending
      refine ⟨segs', rest', ?_, hpending', ?_⟩
      · rw [Conn.blocks, bind_ok heq, bind_ok heq', hrest, hx]
        rfl
      · rw [hrest', hrest, hx]
        rfl

/-- There are no more. -/
theorem blocks_short {t : Conn} (n : Nat) : ∀ (msgs : List Msg) (segs : List Seg),
    (∀ y, .block y ∈ msgs → y.toNat < 2 ^ 31) →
    (∀ y, .block y ∈ msgs → (y.toNat : Int) < t.numBlocks) → (indexes msgs).length < n →
    pending segs = encodeMsgs msgs → ∃ e segs', t.blocks n segs = .error e segs' := by
  induction n with
  | zero => intro msgs segs _ _ hn; exact absurd hn (Nat.not_lt_zero _)
  | succ n ih =>
      intro msgs segs hmsgs hlt hn hs
      cases hx : indexes msgs with
      | nil =>
          obtain ⟨e, segs', heq, -⟩ := block_short t hx segs hs
          exact ⟨e, segs', by rw [Conn.blocks, bind_error heq]⟩
      | cons x xs =>
          have hmem : Msg.block x ∈ msgs :=
            block_mem_of_index (by rw [hx]; exact List.mem_cons_self ..)
          obtain ⟨segs₁, rest, heq, hpending, hrest, hsuffix⟩ := block_ok hmsgs hx (hlt x hmem) hs
          rw [hx, List.length_cons] at hn
          obtain ⟨e, segs', heq'⟩ := ih rest segs₁ (fun y hy => hmsgs y (hsuffix.mem hy))
            (fun y hy => hlt y (hsuffix.mem hy)) (by rw [hrest]; omega) hpending
          exact ⟨e, segs', by rw [Conn.blocks, bind_ok heq, bind_error heq']⟩

end Testimony.GoClient
