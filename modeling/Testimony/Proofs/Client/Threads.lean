import Mathlib.Algebra.BigOperators.Fin
import Testimony.Client.Threads
import Testimony.Lib.Update
import Testimony.Proofs.Client.Block

/-!
# `Testimony.Proofs.Client.Threads`: one of many threads returns the block

Threads that return the packets of a block one part at a time take turns in every order. The
invariant `Threads.Counted` balances two things. What the count has lost is what the calls so
far have subtracted, so a call never subtracts more than is left. And a count of zero stands
for exactly one call that has seen its own amount come back, on its way to `send_be_32` or
behind it.

`return_packets_exactly_once`: amounts that add up to the number of packets send the index
once, after the last subtraction, and anything less sends nothing.
-/

set_option autoImplicit false

namespace Testimony.Client

open Lib System

variable {n : Nat} {t : T} {x numPkts : UInt32} {packets : Fin n → UInt32} {s s' : Threads n}

/-! ### The balance of the count -/

/-- What a call still has to subtract. -/
def ReturnPc.owes (packets : UInt32) : ReturnPc → Nat
  | .sub => packets.toNat
  | .and | .send _ | .done _ => 0

/-- A call that returns the block and has not sent its index yet. -/
def ReturnPc.returning : ReturnPc → Nat
  | .and | .send _ => 1
  | .sub | .done _ => 0

/-- What the calls still have to subtract. -/
def Threads.owed (packets : Fin n → UInt32) (s : Threads n) : Nat :=
  ∑ j, (s.pc j).owes (packets j)

/-- How many calls return the block, before or after their `send_be_32`. -/
def Threads.returns (s : Threads n) : Nat :=
  ∑ j, (s.pc j).returning + s.sent.length

/-- No call has failed at one of its checks, only at its `send`. -/
def Threads.ChecksPass (s : Threads n) : Prop :=
  ∀ j e msg, s.pc j = .done (.error (e, msg)) → msg = .send

/-- The count of block `x` and the calls are in balance. -/
structure Threads.Counted (t : T) (x numPkts : UInt32) (packets : Fin n → UInt32)
    (s : Threads n) : Prop where
  conn_eq : s.t.conn = t.conn
  ring_eq : s.t.ring = t.ring
  count : (s.t.blockCounts x.toNat).toNat + ∑ j, (packets j).toNat
    = numPkts.toNat + s.owed packets
  returns : s.returns = if s.t.blockCounts x.toNat = 0 then 1 else 0
  index : ∀ j i, s.pc j = .send i → i = x
  sent : ∀ i ∈ s.sent, i = x
  pass : s.ChecksPass

/-- What a step of one call has to respect. -/
theorem Threads.Counted.of_update (h : s.Counted t x numPkts packets) {j : Fin n} {pc : ReturnPc}
    (hpc : s'.pc = Function.update s.pc j pc) (hconn : s'.t.conn = s.t.conn)
    (hring : s'.t.ring = s.t.ring)
    (hcount : (s'.t.blockCounts x.toNat).toNat + (s.pc j).owes (packets j)
      = (s.t.blockCounts x.toNat).toNat + pc.owes (packets j))
    (hreturns : pc.returning + s'.sent.length + (if s.t.blockCounts x.toNat = 0 then 1 else 0)
      = (s.pc j).returning + s.sent.length + if s'.t.blockCounts x.toNat = 0 then 1 else 0)
    (hindex : ∀ i, pc = .send i → i = x) (hsent : ∀ i ∈ s'.sent, i = x)
    (hpass : ∀ e msg, pc = .done (.error (e, msg)) → msg = .send) :
    s'.Counted t x numPkts packets := by
  have howed := sum_update (Finset.mem_univ j) s.pc pc fun j pc => pc.owes (packets j)
  have hreturning := sum_update (Finset.mem_univ j) s.pc pc fun _ pc => pc.returning
  have hold := h.count
  have hone := h.returns
  unfold Threads.owed at hold
  unfold Threads.returns at hone
  -- Only the `j`-th summand of either sum changes.
  refine ⟨hconn.trans h.conn_eq, hring.trans h.ring_eq, ?_, ?_, ?_, hsent, ?_⟩
  · unfold Threads.owed
    rw [hpc]
    omega
  · unfold Threads.returns
    rw [hpc]
    omega
  · intro j' i hj'
    rw [hpc] at hj'
    by_cases hjj : j' = j
    · subst hjj
      exact hindex i (by rwa [Function.update_self] at hj')
    · exact h.index j' i (by rwa [Function.update_of_ne hjj] at hj')
  · intro j' e msg hj'
    rw [hpc] at hj'
    by_cases hjj : j' = j
    · subst hjj
      exact hpass e msg (by rwa [Function.update_self] at hj')
    · exact h.pass j' e msg (by rwa [Function.update_of_ne hjj] at hj')

/-- A call that has not subtracted yet finds its amount in the count. -/
theorem Threads.Counted.le_count (h : s.Counted t x numPkts packets)
    (hsum : ∑ j, (packets j).toNat ≤ numPkts.toNat) {j : Fin n} (hpc : s.pc j = .sub) :
    packets j ≤ s.t.blockCounts x.toNat := by
  have howes : (s.pc j).owes (packets j) ≤ s.owed packets :=
    le_sum (Finset.mem_univ j) s.pc fun j pc => pc.owes (packets j)
  have hcount := h.count
  rw [hpc, ReturnPc.owes] at howes
  rw [UInt32.le_iff_toNat_le]
  omega

/-- A call that returns the block does so with a count of zero. -/
theorem Threads.Counted.count_eq_zero (h : s.Counted t x numPkts packets)
    (hreturns : 0 < s.returns) : s.t.blockCounts x.toNat = 0 := by
  by_contra hne
  rw [h.returns, if_neg hne] at hreturns
  exact absurd hreturns (Nat.lt_irrefl 0)

/-- A call on its way to `send_be_32` is one that returns the block. -/
theorem Threads.returns_pos {j : Fin n} (hpc : 0 < (s.pc j).returning) : 0 < s.returns :=
  Nat.add_pos_left (Nat.lt_of_lt_of_le hpc
    (le_sum (Finset.mem_univ j) s.pc fun _ pc => pc.returning)) _

/-! ### The steps of a call -/

/-- Block `x` of a client, behind the pointer that its user has. -/
structure T.Has (t : T) (block : Nat) (x : UInt32) : Prop where
  mapped : t.Mapped
  lt : x.toNat < t.conn.blockNr
  block_eq : block = t.block x.toNat

/-- The pointer means the same block as long as the ring stays where it is. -/
theorem T.Has.congr {u : T} {block : Nat} (h : t.Has block x) (hconn : u.conn = t.conn)
    (hring : u.ring = t.ring) : u.Has block x where
  mapped := ⟨hconn ▸ h.mapped.1, hconn ▸ hring ▸ h.mapped.2, hconn ▸ h.mapped.3⟩
  lt := hconn ▸ h.lt
  block_eq := by rw [h.block_eq, T.block, T.block, hconn, hring]

/-- A step of a call keeps the balance. -/
theorem Threads.Counted.step {block : Nat} (hhas : t.Has block x) (hpos : ∀ j, 0 < packets j)
    (hsum : ∑ j, (packets j).toNat ≤ numPkts.toNat) (h : s.Counted t x numPkts packets)
    {j : Fin n} {errno : Option Nat} (hstep : s.step block numPkts packets j errno = some s') :
    s'.Counted t x numPkts packets := by
  have hs := hhas.congr h.conn_eq h.ring_eq
  unfold Threads.step at hstep
  cases hpc : s.pc j with
  -- The subtraction takes from the count what the call owed to it.
  | sub =>
      have hle := h.le_count hsum hpc
      have hp := hpos j
      rw [UInt32.lt_iff_toNat_lt] at hp
      have hsub : (s.t.blockCounts x.toNat - packets j).toNat
          = (s.t.blockCounts x.toNat).toNat - (packets j).toNat := UInt32.toNat_sub_of_le _ _ hle
      have hne : s.t.blockCounts x.toNat ≠ 0 := by
        intro hzero
        rw [hzero, UInt32.le_iff_toNat_le] at hle
        simp at hle hp
        omega
      simp only [hpc] at hstep
      rw [hs.block_eq, returnPackets_ok hs.mapped hs.lt hle] at hstep
      by_cases heq : packets j = s.t.blockCounts x.toNat
      · -- The last packets: this call returns the block.
        simp only [heq, decide_true, Option.some.injEq] at hstep
        subst hstep
        refine h.of_update rfl rfl rfl ?_ ?_ nofun h.sent nofun
        · simp [goOn, hpc, ReturnPc.owes, heq]
        · simp [goOn, hpc, ReturnPc.returning, hne]
          omega
      · simp only [heq, decide_false, Option.some.injEq] at hstep
        subst hstep
        have hleft : s.t.blockCounts x.toNat - packets j ≠ 0 := by
          intro hzero
          rw [hzero] at hsub
          rw [UInt32.le_iff_toNat_le] at hle
          exact heq (UInt32.toNat_inj.mp (by simp at hsub; omega))
        refine h.of_update rfl rfl rfl ?_ ?_ nofun h.sent nofun
        · rw [UInt32.le_iff_toNat_le] at hle
          simp only [goOn, hpc, ReturnPc.owes, Function.update_self, hsub]
          omega
        · simp [goOn, hpc, ReturnPc.returning, hne, hleft]
  -- The call that found nothing left resets the count, which is zero, and has an index to send.
  | and =>
      have hzero := h.count_eq_zero (returns_pos (j := j) (by simp [hpc, ReturnPc.returning]))
      simp only [hpc] at hstep
      rw [hs.block_eq, returnBlock_ok hs.mapped hs.lt (.inl hzero)] at hstep
      simp only [Option.some.injEq] at hstep
      subst hstep
      refine h.of_update rfl rfl rfl ?_ ?_ ?_ h.sent nofun
      · simp [goOn, hpc, ReturnPc.owes, hzero]
      · simp [goOn, hpc, ReturnPc.returning, hzero]
      · intro i hi
        rw [← ReturnPc.send.inj hi, UInt32.ofNat_toNat]
  | send i =>
      simp only [hpc, Option.some.injEq] at hstep
      subst hstep
      refine h.of_update rfl rfl rfl ?_ ?_ nofun ?_ ?_
      · simp [goOn, hpc, ReturnPc.owes]
      · show 0 + (s.sent ++ [i]).length + (if s.t.blockCounts x.toNat = 0 then 1 else 0)
          = (s.pc j).returning + s.sent.length + if s.t.blockCounts x.toNat = 0 then 1 else 0
        rw [hpc, ReturnPc.returning, List.length_append, List.length_singleton]
        omega
      · intro i' hi'
        rcases List.mem_append.mp hi' with hold | hnew
        · exact h.sent i' hold
        · rw [List.mem_singleton.mp hnew, h.index j i hpc]
      · intro e msg hmsg
        cases errno with
        | none => nomatch hmsg
        | some errno =>
            simp only [ReturnPc.done.injEq, Except.error.injEq, Prod.mk.injEq] at hmsg
            exact hmsg.2.symm
  | done r => simp [hpc] at hstep

/-- How many steps a call has left at most. -/
def ReturnPc.stepsLeft : ReturnPc → Nat
  | .sub => 3
  | .and => 2
  | .send _ => 1
  | .done _ => 0

/-- A call that has no step left has returned. -/
theorem ReturnPc.done_of_stepsLeft {pc : ReturnPc} (h : pc.stepsLeft = 0) : ∃ r, pc = .done r := by
  cases pc with
  | done r => exact ⟨r, rfl⟩
  | sub | and | send i => nomatch h

/-- A step brings its call nearer to the end. -/
theorem stepsLeft_lt {block : Nat} {j : Fin n} {errno : Option Nat}
    (hstep : s.step block numPkts packets j errno = some s') :
    ∑ j, (s'.pc j).stepsLeft < ∑ j, (s.pc j).stepsLeft := by
  -- Whatever a step does, it puts its own call at a later place and no other call anywhere.
  have hmove : ∃ pc, s'.pc = Function.update s.pc j pc ∧ pc.stepsLeft < (s.pc j).stepsLeft := by
    unfold Threads.step at hstep
    cases hpc : s.pc j with
    | sub | and =>
        simp only [hpc] at hstep
        split at hstep <;> cases hstep <;> exact ⟨_, rfl, by simp [ReturnPc.stepsLeft]⟩
    | send i =>
        simp only [hpc, Option.some.injEq] at hstep
        subst hstep
        exact ⟨_, rfl, by simp [ReturnPc.stepsLeft]⟩
    | done r => simp [hpc] at hstep
  obtain ⟨pc, hpc, hlt⟩ := hmove
  have hsum := sum_update (Finset.mem_univ j) s.pc pc fun _ pc => pc.stepsLeft
  rw [hpc]
  omega

/-- A call that is not done can go on. -/
theorem step_ne_none (block : Nat) (j : Fin n) (errno : Option Nat) :
    (∃ r, s.pc j = .done r) ∨ s.step block numPkts packets j errno ≠ none := by
  unfold Threads.step
  cases hpc : s.pc j with
  | sub | and =>
      right
      simp only []
      split <;> simp
  | send i => simp
  | done r => exact .inl ⟨r, rfl⟩

/-! ### Whole runs -/

/-- `testimony_get_block` gives its user a block with the number of packets as its count. -/
theorem has_of_claimBlock {t' : T} {block : Nat} (h : t.Mapped)
    (hget : claimBlock t x numPkts = (.ok block, t')) :
    t'.Has block x ∧ t'.blockCounts x.toNat = numPkts := by
  obtain ⟨hlt, rfl, rfl⟩ := of_claimBlock_ok hget
  exact ⟨⟨⟨h.1, h.2, h.3⟩, hlt, rfl⟩, Function.update_self ..⟩

/-- The sum over the threads is the sum over the list of their amounts. -/
theorem sum_get_toNat (amounts : List UInt32) :
    ∑ j, (amounts.get j).toNat = (amounts.map UInt32.toNat).sum := by
  rw [← List.sum_ofFn]
  congr 1
  exact List.ext_get (by simp) (by simp)

/-- The balance holds in every run whose amounts are positive and do not exceed the number of
packets. -/
theorem Threads.Counted.of_reachable {block : Nat} {amounts : List UInt32} (hhas : t.Has block x)
    (hcount : t.blockCounts x.toNat = numPkts) (hnum : 0 < numPkts) (hpos : ∀ p ∈ amounts, 0 < p)
    (hsum : (amounts.map UInt32.toNat).sum ≤ numPkts.toNat) {s : Threads amounts.length}
    (h : (threadSystem t block numPkts amounts).Reachable s) :
    s.Counted t x numPkts amounts.get := by
  refine h.invariant (P := fun s => s.Counted t x numPkts amounts.get) ?_ ?_
  · have hne : numPkts ≠ 0 := by
      rintro rfl
      exact absurd hnum (by decide)
    refine ⟨rfl, rfl, ?_, ?_, nofun, nofun, nofun⟩
    · simp [threadSystem, Threads.owed, ReturnPc.owes, hcount]
    · simp [threadSystem, Threads.returns, ReturnPc.returning, hcount, hne]
  · intro s l s' _ hs hstep
    exact hs.step hhas (fun j => hpos _ (List.get_mem _ _)) (sum_get_toNat amounts ▸ hsum)
      hstep

/-- The index is sent once at most, and only with a count of zero. -/
theorem Threads.Counted.sent_cases (h : s.Counted t x numPkts packets) :
    s.sent = [] ∨ s.sent = [x] ∧ s.t.blockCounts x.toNat = 0 := by
  have hlen : s.sent.length ≤ s.returns := Nat.le_add_left _ _
  have hone : s.returns ≤ 1 := by
    rw [h.returns]
    split <;> omega
  match hsent : s.sent with
  | [] => exact .inl rfl
  | [i] =>
      have hi : i = x := h.sent i (by simp [hsent])
      have hzero := h.count_eq_zero (Nat.lt_of_lt_of_le (by simp [hsent]) hlen)
      exact .inr ⟨by rw [hi], hzero⟩
  | _ :: _ :: _ =>
      rw [hsent] at hlen
      simp only [List.length_cons] at hlen
      omega

/-- With nothing left to subtract, no call is before its subtraction. -/
theorem Threads.ne_sub_of_owed (hpos : ∀ j, 0 < packets j) (hs : s.owed packets = 0) (j : Fin n) :
    s.pc j ≠ .sub := by
  intro hpc
  have howes : (s.pc j).owes (packets j) ≤ s.owed packets :=
    le_sum (Finset.mem_univ j) s.pc fun j pc => pc.owes (packets j)
  have hp := hpos j
  rw [hpc, hs, ReturnPc.owes] at howes
  rw [UInt32.lt_iff_toNat_lt] at hp
  exact absurd hp (Nat.not_lt.mpr howes)

/-- When all calls are done, nothing is left to subtract and every return is behind its
`send_be_32`. -/
theorem Threads.balance_of_done (packets : Fin n → UInt32) (hdone : ∀ j, ∃ r, s.pc j = .done r) :
    s.owed packets = 0 ∧ s.returns = s.sent.length := by
  have howes : ∀ j, (s.pc j).owes (packets j) = 0 := by
    intro j
    obtain ⟨r, hr⟩ := hdone j
    rw [hr, ReturnPc.owes]
  have hreturning : ∀ j, (s.pc j).returning = 0 := by
    intro j
    obtain ⟨r, hr⟩ := hdone j
    rw [hr, ReturnPc.returning]
  simp [Threads.owed, Threads.returns, howes, hreturning]

/-- Some of the calls subtract less than all of them. -/
theorem sum_lt_of_sublist {some amounts : List UInt32} (hsub : some.Sublist amounts)
    (hpos : ∀ p ∈ amounts, 0 < p) :
    some = amounts ∨ (some.map UInt32.toNat).sum < (amounts.map UInt32.toNat).sum := by
  induction hsub with
  | slnil => exact .inl rfl
  | cons p _ ih =>
      have hp := UInt32.lt_iff_toNat_lt.mp (hpos p (List.mem_cons_self ..))
      simp only [List.map_cons, List.sum_cons]
      rcases ih fun q hq => hpos q (List.mem_cons_of_mem _ hq) with rfl | hlt
      · exact .inr (Nat.lt_add_of_pos_left hp)
      · exact .inr (Nat.lt_add_left _ hlt)
  | cons_cons p _ ih =>
      simp only [List.map_cons, List.sum_cons]
      rcases ih fun q hq => hpos q (List.mem_cons_of_mem _ hq) with rfl | hlt
      · exact .inl rfl
      · exact .inr (Nat.add_lt_add_left hlt _)

/-- Once `testimony_get_block` has given a block with packets in it to the program, calls of
`testimony_return_packets` with positive amounts that add up to the number of packets return it
exactly once. This is so in every order of their atomic operations and sends. No call fails a
check, the index is sent when all subtractions are done and the count is zero, and the calls
all come to their end. With only some of the calls, nothing is sent. -/
theorem return_packets_exactly_once {t t' : T} (hmapped : t.Mapped) {x numPkts : UInt32}
    {block : Nat} (hget : claimBlock t x numPkts = (.ok block, t')) (hnum : 0 < numPkts)
    (amounts : List UInt32) (hpos : ∀ p ∈ amounts, 0 < p)
    (hsum : (amounts.map UInt32.toNat).sum = numPkts.toNat) :
    (∀ s, (threadSystem t' block numPkts amounts).Reachable s →
      s.ChecksPass ∧ s.sent <+: [x] ∧ (s.sent ≠ [] → ∀ j, s.pc j ≠ .sub) ∧
      (s.sent ≠ [] ∨ (∃ j i, s.pc j = .send i) → s.t.blockCounts x.toNat = 0) ∧
      ((∀ j, ∃ r, s.pc j = .done r) → s.sent = [x]) ∧
      ∀ j errno, (∃ r, s.pc j = .done r) ∨
        (threadSystem t' block numPkts amounts).step s (j, errno) ≠ none) ∧
    (∀ es s, (threadSystem t' block numPkts amounts).exec ⟨t', fun _ => .sub, []⟩ es = some s →
      es.length ≤ 3 * amounts.length) ∧
    ∀ some : List UInt32, some.Sublist amounts → some ≠ amounts →
      ∀ s, (threadSystem t' block numPkts some).Reachable s → s.ChecksPass ∧ s.sent = [] := by
  obtain ⟨hhas, hcount⟩ := has_of_claimBlock hmapped hget
  refine ⟨fun s hs => ?_, fun es s hes => ?_, fun some hsub hne s hs => ?_⟩
  · have h := Threads.Counted.of_reachable hhas hcount hnum hpos hsum.le hs
    -- All packets are accounted for: the count is what the calls still have to subtract.
    have howed : s.owed amounts.get = (s.t.blockCounts x.toNat).toNat := by
      have := h.count
      rw [sum_get_toNat] at this
      omega
    refine ⟨h.pass, ?_, ?_, ?_, ?_, fun j errno => step_ne_none _ j errno⟩
    · rcases h.sent_cases with hnil | ⟨hx, -⟩
      · rw [hnil]
        exact List.nil_prefix
      · rw [hx]
    · intro hsent
      have hzero := (h.sent_cases.resolve_left hsent).2
      exact Threads.ne_sub_of_owed (fun j => hpos _ (List.get_mem _ _)) (by rw [howed, hzero]; rfl)
    · rintro (hsent | ⟨j, i, hpc⟩)
      · exact (h.sent_cases.resolve_left hsent).2
      · exact h.count_eq_zero (Threads.returns_pos (j := j) (by simp [hpc, ReturnPc.returning]))
    · intro hdone
      obtain ⟨hzero, hreturns⟩ := Threads.balance_of_done amounts.get hdone
      rw [howed] at hzero
      have hlen := h.returns
      rw [if_pos (UInt32.toNat_inj.mp hzero), hreturns] at hlen
      rcases h.sent_cases with hnil | ⟨hx, -⟩
      · rw [hnil] at hlen
        nomatch hlen
      · exact hx
  · refine (length_le_of_exec (fun s l s' => stepsLeft_lt) es hes).trans ?_
    simp [ReturnPc.stepsLeft, Nat.mul_comm]
  · have hlt := (sum_lt_of_sublist hsub hpos).resolve_left hne
    have h := Threads.Counted.of_reachable hhas hcount hnum
      (fun p hp => hpos p (hsub.subset hp)) (by omega) hs
    refine ⟨h.pass, ?_⟩
    rcases h.sent_cases with hnil | ⟨-, hzero⟩
    · exact hnil
    · -- The count is more than zero by what the missing calls would have subtracted.
      have hpositive := h.count
      rw [sum_get_toNat, hzero] at hpositive
      have : (0 : UInt32).toNat = 0 := rfl
      omega

/-- Two calls return one and two packets of a block with three. The second one subtracts
first, so the first one returns the block. -/
theorem return_packets_exactly_once_two :
    let got := claimBlock (T.onRing 4 []) 1 3
    let M := threadSystem got.2 ((T.onRing 4 []).block 1) 3 [1, 2]
    ∃ s, M.exec M.init [(1, none), (0, none), (0, none), (0, none)] = some s ∧
      s.sent = [1] ∧ s.t.blockCounts 1 = 0 := by
  intro got M
  have h := return_packets_exactly_once (T.mapped_onRing (by decide) [])
    (show claimBlock (T.onRing 4 []) 1 3 = (.ok ((T.onRing 4 []).block 1), got.2) from rfl)
    (by decide) [1, 2] (by simp) (by simp)
  -- The run itself, and that it leaves both calls done.
  have hrun : (M.exec M.init [(1, none), (0, none), (0, none), (0, none)]).map
      (fun s => ((s.pc 0).stepsLeft, (s.pc 1).stepsLeft)) = some (0, 0) := by decide +kernel
  obtain ⟨s, hs, hleft⟩ := Option.map_eq_some_iff.mp hrun
  obtain ⟨-, -, -, hzero, hsent, -⟩ := h.1 s (reachable_of_exec hs)
  have hdone := hsent fun j => ReturnPc.done_of_stepsLeft (by
    match j with
    | 0 => exact (Prod.mk.inj hleft).1
    | 1 => exact (Prod.mk.inj hleft).2)
  exact ⟨s, hs, hdone, hzero (.inl (by rw [hdone]; decide))⟩

end Testimony.Client
