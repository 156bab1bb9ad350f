import Testimony.GoClient.Iter

/-!
# `Testimony.Proofs.GoClient.Iter`: iterating over a block in Go

`Block.next` moves its offset along the chain before it looks whether a packet is left, and takes
an offset of zero for the first call. `Block.after` is the block after a number of calls that
returned `true`; as long as packets are left, `next_after` goes from one to the following.

`next_stable_iff`: calls past the end change nothing, unless the block is empty. There the first
call leaves an offset and no packet, and the second one follows the nil pointer.
-/

set_option autoImplicit false

namespace Testimony.GoClient

open Tpacket

variable {B : Slice}

/-! ### The calls that return a packet -/

/-- A block after `j` calls of `Next` that returned `true`. -/
def Block.after (B : Slice) : Nat → Block
  | 0 => .fresh B
  | j + 1 => ⟨B, packetAt B.mem j, (count B.mem : Int) - (j + 1), some (packetAt B.mem j)⟩

/-- An index inside the slice is no panic. -/
theorem Slice.addr_of_lt {i : Nat} (h : i < B.len) : B.addr i = .ok i := if_pos h

/-- While packets are left, `Next` goes to the next one. -/
theorem next_after (h : Chained B.mem B.len) {j : Nat} (hj : j < count B.mem) :
    (Block.after B j).next = .ok (true, Block.after B (j + 1)) := by
  have haddr := B.addr_of_lt (h.packetAt_lt hj)
  cases j with
  | zero =>
      have hleft : ¬ ((count B.mem : Int) ≤ 0) := by omega
      have hheader := B.addr_of_lt h.size_pos
      unfold packetAt at haddr
      unfold count at hleft
      simp only [Block.after, Block.fresh, Block.next, Block.header, hheader, if_true, bind,
        Except.bind, pure, Except.pure, if_neg hleft, haddr, packetAt]
      simp [count]
  | succ j =>
      have hoffset : packetAt B.mem j ≠ 0 := (h.packetAt_pos j).ne'
      have hleft : ¬ ((count B.mem : Int) - (j + 1) ≤ 0) := by omega
      unfold packetAt at haddr
      simp only [Block.after, Block.next, if_neg hoffset, bind, Except.bind, pure, Except.pure,
        if_neg hleft, haddr, packetAt]
      simp [Int.sub_sub, Int.add_assoc]

/-- `PacketData` after a call that returned `true`. -/
theorem packetData_after (B : Slice) (j : Nat) :
    (Block.after B (j + 1)).packetData =
      (B.slice (dataAt B.mem j) (dataAt B.mem j
        + (tpSnaplen B.mem (packetAt B.mem j)).toNat)).map some := by
  simp only [Block.packetData, Block.after, dataAt, bind, Except.bind, pure, Except.pure,
    Except.map]

/-! ### The calls past the end -/

/-- Once all packets have been returned, `Next` only moves the offset. -/
theorem next_end (h : Chained B.mem B.len) (hpos : 0 < count B.mem) :
    (Block.after B (count B.mem)).next =
      .ok (false, { Block.after B (count B.mem) with offset := packetAt B.mem (count B.mem) }) := by
  obtain ⟨j, hj⟩ := Nat.exists_eq_succ_of_ne_zero hpos.ne'
  have hoffset : packetAt B.mem j ≠ 0 := (h.packetAt_pos j).ne'
  have hleft : (count B.mem : Int) - (j + 1) ≤ 0 := by omega
  rw [hj]
  simp only [Block.after, Block.next, if_neg hoffset, bind, Except.bind, pure, Except.pure,
    if_pos hleft, packetAt]

/-- On an empty block, the first call of `Next` leaves the offset of a packet that is not
there. -/
theorem next_empty (h : Chained B.mem B.len) (hzero : count B.mem = 0) :
    (Block.fresh B).next = .ok (false, { Block.fresh B with offset := packetAt B.mem 0 }) := by
  have hheader := B.addr_of_lt h.size_pos
  have hcount : (numPkts B.mem 0).toNat = 0 := hzero
  simp only [Block.fresh, Block.next, Block.header, hheader, if_true, bind, Except.bind, pure,
    Except.pure, packetAt, hcount]
  rfl

/-- Without a packet, a call of `Next` that is not the first one panics. -/
theorem next_nil {b : Block} (hoffset : b.offset ≠ 0) (hpkt : b.pkt = none) :
    b.next = .error .nilDereference := by
  simp only [Block.next, if_neg hoffset, hpkt]
  rfl

/-- The last header ends the chain. -/
def EndsChain (m : Mem) : Prop :=
  ∀ j, j + 1 = count m → tpNextOffset m (packetAt m j) = 0

/-- Behind a last header that ends the chain, `Next` changes nothing. -/
theorem next_past (h : Chained B.mem B.len) (hlast : EndsChain B.mem) (hpos : 0 < count B.mem) :
    (Block.after B (count B.mem)).next = .ok (false, Block.after B (count B.mem)) := by
  rw [next_end h hpos]
  obtain ⟨j, hj⟩ := Nat.exists_eq_succ_of_ne_zero hpos.ne'
  have hstay : packetAt B.mem (j + 1) = packetAt B.mem j := by
    rw [packetAt, hlast j hj.symm]
    rfl
  rw [hj]
  simp only [Nat.succ_eq_add_one, hstay, Block.after]

/-- Any number of calls on a block that is not empty. -/
theorem nexts_after (h : Chained B.mem B.len) (hlast : EndsChain B.mem) (hpos : 0 < count B.mem)
    (k : Nat) : ∀ j ≤ count B.mem, (Block.after B j).nexts k =
      .ok (List.replicate (min k (count B.mem - j)) true
          ++ List.replicate (k - (count B.mem - j)) false,
        Block.after B (min (j + k) (count B.mem))) := by
  induction k with
  | zero =>
      intro j hj
      rw [Block.nexts, Nat.zero_min, Nat.zero_sub, Nat.add_zero, Nat.min_eq_left hj]
      rfl
  | succ k ih =>
      intro j hj
      by_cases hlt : j < count B.mem
      · -- One more packet, and the other calls start behind it.
        obtain ⟨d, hd⟩ : ∃ d, count B.mem - j = d + 1 := ⟨count B.mem - j - 1, by omega⟩
        have hd' : count B.mem - (j + 1) = d := by omega
        rw [Block.nexts, next_after h hlt]
        simp only [bind, Except.bind, ih (j + 1) hlt, hd, hd', pure, Except.pure]
        rw [Nat.add_min_add_right, List.replicate_succ, Nat.add_sub_add_right,
          show j + 1 + k = j + (k + 1) by omega]
        rfl
      · have heq : j = count B.mem := by omega
        subst heq
        have hk := ih (count B.mem) (Nat.le_refl _)
        rw [Nat.sub_self, Nat.min_zero, Nat.sub_zero, Nat.min_eq_right (Nat.le_add_right _ _)]
          at hk ⊢
        rw [Block.nexts, next_past h hlast hpos]
        simp only [bind, Except.bind, hk, pure, Except.pure]
        rfl

/-- What `Packet` and `PacketData` should return when the last packet was the `n`th one. -/
def Block.Describes (B : Slice) (b : Block) : Nat → Prop
  | 0 => b.packet = none ∧ b.packetData = .ok none
  | j + 1 => b.packet = some (packetAt B.mem j) ∧ b.packetData =
      (B.slice (dataAt B.mem j) (dataAt B.mem j
        + (tpSnaplen B.mem (packetAt B.mem j)).toNat)).map some

/-- The block after `j` calls of `Next` describes its position. -/
theorem describes_after (B : Slice) (j : Nat) : (Block.after B j).Describes B j := by
  cases j with
  | zero => exact ⟨rfl, rfl⟩
  | succ j => exact ⟨rfl, packetData_after B j⟩

/-- None of `k` calls of `Next` on a fresh block panics. They return `true` once for each packet
and `false` then, and after each of them `Packet` and `PacketData` are about the last packet. -/
def StableEnd (B : Slice) (k : Nat) : Prop :=
  ∀ i ≤ k, ∃ b, (Block.fresh B).nexts i =
      .ok (List.replicate (min i (count B.mem)) true
        ++ List.replicate (i - count B.mem) false, b) ∧
    b.Describes B (min i (count B.mem))

/-- The end of an iteration is stable, unless the block is empty and `Next` is called again. -/
theorem next_stable_iff (h : Chained B.mem B.len) (hlast : EndsChain B.mem) (k : Nat) :
    StableEnd B k ↔ 0 < count B.mem ∨ k ≤ 1 := by
  constructor
  · intro hstable
    by_contra hnot
    obtain ⟨hzero, hk⟩ : count B.mem = 0 ∧ 2 ≤ k := by omega
    obtain ⟨b, hb, -⟩ := hstable 2 hk
    -- The second call finds an offset and no packet.
    have hnil := next_nil (b := { Block.fresh B with offset := packetAt B.mem 0 })
      (h.packetAt_pos 0).ne' rfl
    rw [Block.nexts, next_empty h hzero] at hb
    simp only [bind, Except.bind, Block.nexts, hnil] at hb
    nomatch hb
  · intro hor i hi
    by_cases hpos : 0 < count B.mem
    · refine ⟨_, nexts_after h hlast hpos i 0 (Nat.zero_le _), ?_⟩
      rw [Nat.zero_add]
      exact describes_after B _
    · have hzero : count B.mem = 0 := Nat.eq_zero_of_not_pos hpos
      rw [hzero]
      match i, hi.trans (hor.resolve_left hpos) with
      | 0, _ => exact ⟨.fresh B, rfl, rfl, rfl⟩
      | 1, _ =>
          refine ⟨{ Block.fresh B with offset := packetAt B.mem 0 }, ?_, rfl, rfl⟩
          rw [Block.nexts, next_empty h hzero]
          rfl

/-- A block that holds the given bytes and zeros elsewhere. -/
def memOf (pokes : List (Nat × UInt8)) : Mem := fun a => (pokes.lookup a).getD 0

/-- A block of 192 bytes with `mem` in it, at the end of the ring. -/
def lastBlock (mem : Mem) : Slice := ⟨mem, 192, 192, Nat.le_refl _⟩

/-- Two packets of four and two bytes. -/
def twoPackets : Mem :=
  memOf [(0, 2), (12, 2), (16, 48), (48, 64), (60, 4), (72, 48), (96, 7), (97, 8), (98, 9),
    (124, 2), (136, 48), (160, 5), (161, 6)]

/-- The packets of `twoPackets` are chained. -/
theorem chained_twoPackets : Chained twoPackets 192 where
  size_pos := by decide
  version_eq := by decide +kernel
  first_pos := by decide +kernel
  header_le := by decide +kernel

/-- Five calls on a block with two packets. -/
theorem next_stable_iff_two :
    (Block.fresh (lastBlock twoPackets)).nexts 5 =
      .ok ([true, true, false, false, false], Block.after (lastBlock twoPackets) 2) ∧
    StableEnd (lastBlock twoPackets) 5 := by
  have hends : EndsChain twoPackets := by
    intro j hj
    have hcount : count twoPackets = 2 := by decide +kernel
    obtain rfl : j = 1 := by omega
    decide +kernel
  exact ⟨rfl, (next_stable_iff (B := lastBlock twoPackets) chained_twoPackets hends 5).mpr
    (.inl (by decide +kernel))⟩

/-- A block without packets. -/
def noPackets : Mem := memOf [(0, 2), (16, 48)]

/-- The first call on an empty block returns `false`, and the second one panics. -/
theorem next_panics :
    Chained noPackets 192 ∧ EndsChain noPackets ∧
    (Block.fresh (lastBlock noPackets)).nexts 2 = .error .nilDereference ∧
    ¬ StableEnd (lastBlock noPackets) 2 := by
  have hchained : Chained noPackets 192 :=
    ⟨by decide, by decide +kernel, by decide +kernel, by decide +kernel⟩
  have hzero : count noPackets = 0 := by decide +kernel
  have hpanic : (Block.fresh (lastBlock noPackets)).nexts 2 = .error .nilDereference := rfl
  refine ⟨hchained, fun j hj => ?_, hpanic, fun hstable => ?_⟩
  · rw [hzero] at hj
    nomatch hj
  · obtain ⟨b, hb, -⟩ := hstable 2 (Nat.le_refl _)
    rw [hpanic] at hb
    nomatch hb

end Testimony.GoClient
