import Testimony.Client.Iter
import Testimony.Lib.CInt
import Testimony.Proofs.GoClient.Iter

/-!
# `Testimony.Proofs.Packets`: both clients see the same packets

The two iterators keep their place in different ways. The Go client has an offset, which is zero
before the first call and moves before the count is looked at. The C client has a pointer, which
is `NULL` before the first call and moves after the count is looked at. On a well formed block
both follow the chain `packetAt`, and both visit every packet of it once
(`Block.visit_after`, `Iter.At.visit`).

`iterators_agree` puts the two together, for an iterator of the C client that was used before.
-/

set_option autoImplicit false

namespace Testimony

open Lib Tpacket

/-! ### The Go client -/

namespace GoClient

variable {B : Slice}

/-- What the Go client gets of a packet. -/
def packetSeen (m : Mem) (j : Nat) : Option Nat × Option (List UInt8) :=
  (some (packetAt m j), some (bytes m (dataAt m j) (tpSnaplen m (packetAt m j)).toNat))

/-- The data of a packet are inside the block, so that `PacketData` does not panic. -/
theorem packetData_ok (h : WellFormed B.mem B.len) {j : Nat} (hj : j < count B.mem) :
    (Block.after B (j + 1)).packetData = .ok (packetSeen B.mem j).2 := by
  have hcap := (h.data_le j hj).trans B.len_le_cap
  rw [packetData_after, Slice.slice, if_pos ⟨Nat.le_add_right _ _, hcap⟩, Nat.add_sub_cancel_left]
  rfl

/-- Behind the last packet `Next` returns `false`, on an empty block as on any other. -/
theorem next_last (h : Chained B.mem B.len) :
    ∃ b, (Block.after B (count B.mem)).next = .ok (false, b) := by
  by_cases hpos : 0 < count B.mem
  · exact ⟨_, next_end h hpos⟩
  · have hzero := Nat.eq_zero_of_not_pos hpos
    rw [hzero]
    exact ⟨_, next_empty h hzero⟩

/-- The rest of an iteration, with `d` packets to go. -/
theorem Block.visit_after (h : WellFormed B.mem B.len) (d : Nat) : ∀ (j calls : Nat),
    j + d = count B.mem → d < calls →
    (Block.after B j).visit calls = .ok (some ((List.range' j d).map (packetSeen B.mem))) := by
  induction d with
  | zero =>
      intro j calls hj hcalls
      obtain ⟨calls, rfl⟩ := Nat.exists_eq_succ_of_ne_zero hcalls.ne'
      obtain rfl : j = count B.mem := hj
      obtain ⟨b, hb⟩ := next_last h.toChained
      rw [Block.visit, hb]
      rfl
  | succ d ih =>
      intro j calls hj hcalls
      obtain ⟨calls, rfl⟩ := Nat.exists_eq_succ_of_ne_zero (Nat.zero_lt_of_lt hcalls).ne'
      have hlt : j < count B.mem := by omega
      rw [Block.visit, next_after h.toChained hlt]
      simp only [bind, Except.bind, if_true, packetData_ok h hlt,
        ih (j + 1) calls (by omega) (by omega), pure, Except.pure, List.range'_succ,
        List.map_cons, Option.map_some]
      rfl

end GoClient

/-! ### The C client -/

namespace Client

variable {m : Mem} {iter : Iter}

/-- What the C client gets of a packet. -/
def packetSeen (m : Mem) (j : Nat) : Nat × Nat := (packetAt m j, dataAt m j)

/-- An iterator on the block `m` before its packet `j`. -/
structure Iter.At (m : Mem) (iter : Iter) (j : Nat) : Prop where
  block_eq : iter.block = some m
  pkt_eq : iter.pkt = match j with
    | 0 => none
    | j + 1 => some (packetAt m j)
  left_eq : iter.left.toInt = (count m : Int) - j

/-- A reset takes an iterator to the start, wherever it was. -/
theorem at_reset {size : Nat} (h : WellFormed m size) (iter : Iter) :
    ∃ iter', iterReset iter m = .ok iter' ∧ iter'.At m 0 := by
  have hlt : (numPkts m 0).toNat < 2 ^ 31 := h.count_lt
  refine ⟨_, if_neg (not_not.mpr h.version_eq), rfl, rfl, ?_⟩
  show (numPkts m 0).toInt32.toInt = ((numPkts m 0).toNat : Int) - 0
  rw [toInt_toInt32, Int.bmod_eq_of_le (by omega) (by omega), Int.sub_zero]

/-- While packets are left, `testimony_iter_next` goes to the next one. -/
theorem Iter.At.next {j : Nat} (h : iter.At m j) (hj : j < count m) :
    ∃ iter', iterNext iter = .ok (some (packetAt m j), iter') ∧ iter'.At m (j + 1) := by
  have hleft := h.left_eq
  have hne : iter.left ≠ 0 := by
    intro hzero
    rw [hzero, Int32.toInt_zero] at hleft
    omega
  have hsub : (iter.left - 1).toInt = (count m : Int) - (j + 1) := by
    have hmax := iter.left.toInt_lt
    rw [Int32.toInt_sub, Int32.toInt_one, hleft, Int.bmod_eq_of_le (by omega) (by omega)]
    omega
  have hpkt := h.pkt_eq
  refine ⟨{ iter with left := iter.left - 1, pkt := some (packetAt m j) }, ?_, h.block_eq, rfl,
    by exact_mod_cast hsub⟩
  cases j with
  | zero => simp only [iterNext, if_neg hne, h.block_eq, hpkt, packetAt]
  | succ j => simp only [iterNext, if_neg hne, h.block_eq, hpkt, packetAt]

/-- The rest of an iteration, with `d` packets to go. -/
theorem Iter.At.visit (d : Nat) : ∀ {iter : Iter} {j : Nat} (calls : Nat), iter.At m j →
    j + d = count m → d < calls →
    iter.visit m calls = .ok (some ((List.range' j d).map (packetSeen m))) := by
  induction d with
  | zero =>
      intro iter j calls h hj hcalls
      obtain ⟨calls, rfl⟩ := Nat.exists_eq_succ_of_ne_zero hcalls.ne'
      have hzero : iter.left = 0 := by
        rw [← Int32.toInt_inj, h.left_eq, Int32.toInt_zero]
        omega
      rw [Iter.visit, iterNext, if_pos hzero]
      rfl
  | succ d ih =>
      intro iter j calls h hj hcalls
      obtain ⟨calls, rfl⟩ := Nat.exists_eq_succ_of_ne_zero (Nat.zero_lt_of_lt hcalls).ne'
      obtain ⟨iter', hnext, hat⟩ := h.next (by omega)
      rw [Iter.visit, hnext]
      simp only [bind, Except.bind, ih calls hat (by omega) (by omega), pure, Except.pure,
        List.range'_succ, List.map_cons, Option.map_some]
      rfl

end Client

/-! ### The two together -/

/-- On a well formed block the two clients visit the same headers, one for each packet. Where the
C client points to the data of a packet, there are the bytes that the Go client returns. This
holds for an iterator of the C client in any state before its reset, and both iterations end
when they have called for one packet more than there are. -/
theorem iterators_agree {B : GoClient.Slice} (h : WellFormed B.mem B.len) (iter : Client.Iter)
    {calls : Nat} (hcalls : count B.mem < calls) :
    ∃ (iter' : Client.Iter) (packets : List (Nat × Nat)),
      Client.iterReset iter B.mem = .ok iter' ∧
      iter'.visit B.mem calls = .ok (some packets) ∧ packets.length = count B.mem ∧
      (GoClient.Block.fresh B).visit calls = .ok (some (packets.map fun p =>
        (some p.1, some (bytes B.mem p.2 (tpSnaplen B.mem p.1).toNat)))) := by
  obtain ⟨iter', hreset, hat⟩ := Client.at_reset h iter
  have hc := hat.visit (count B.mem) calls (Nat.zero_add _) hcalls
  have hgo := GoClient.Block.visit_after h (count B.mem) 0 calls (Nat.zero_add _) hcalls
  refine ⟨iter', _, hreset, hc, by simp, ?_⟩
  rw [List.map_map]
  exact hgo

/-- Two packets, with an iterator of the C client that has already returned the first one. -/
theorem iterators_agree_reused :
    let B := GoClient.lastBlock GoClient.twoPackets
    let used : Client.Iter := ⟨some B.mem, some 48, 1⟩
    ((Client.iterReset Client.iterInit B.mem).toOption.bind fun iter =>
      (Client.iterNext iter).toOption.map fun r => (r.1, r.2.pkt, r.2.left)) =
      some (some 48, used.pkt, used.left) ∧
    (∃ iter' packets, Client.iterReset used B.mem = .ok iter' ∧
      iter'.visit B.mem 3 = .ok (some packets) ∧ packets.length = 2) ∧
    (GoClient.Block.fresh B).visit 3 =
      .ok (some [(some 48, some [7, 8, 9, 0]), (some 112, some [5, 6])]) := by
  intro B used
  have hcount : count B.mem = 2 := by decide +kernel
  have hwf : WellFormed B.mem B.len :=
    { GoClient.chained_twoPackets with
      count_lt := by rw [hcount]; decide
      data_le := by decide +kernel }
  obtain ⟨iter', packets, hreset, hvisit, hlen, -⟩ :=
    iterators_agree hwf used (show count B.mem < 3 by rw [hcount]; decide)
  exact ⟨by decide +kernel, ⟨iter', packets, hreset, hvisit, hlen.trans hcount⟩,
    by decide +kernel⟩

end Testimony
