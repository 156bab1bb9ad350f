import Testimony.Client.Calls
import Testimony.Proofs.Client.Block

/-!
# `Testimony.Proofs.Client.Calls`: what the counts catch and what they spoil

`Return.call_pass` and `Return.call_fail` say what a return call does with the count of its block.
It fails one of its checks exactly if the count does not pass (`Return.failsCheck_iff`), and then
the count is not what it was (`Return.left_ne`).

A program can keep an `Account` of each block from its own calls: which packets of the last receipt
are still due, that it has returned the block, or that it has returned more than there was. A
program is `Prudent` if it makes no return call for a block that it has returned, with one
exception: a `testimony_return_packets` with an amount above zero is caught by the count.
`sent_le_given`: then a block is sent back no more often than it was received. The other calls for
such a block are not caught, and `returned_twice` is a run with one of them.

`rejected_return_intact_iff`: a return call that fails its check leaves the counts as they were
only if there is no such failure. What it leaves keeps the block from being returned by the
calls that are still due.
-/

set_option autoImplicit false

namespace Testimony.Client

open Lib System

variable {t : T} {block : Nat} {x numPkts : UInt32}

/-! ### The return functions -/

/-- The count of a block lets a return call pass. -/
def Return.Passes (count numPkts : UInt32) : Return → Prop
  | .block => count = 0 ∨ count = numPkts
  | .packets amount => amount ≤ count

/-- Whether a call passes is decided by the arithmetic of the function that is called. -/
instance (count numPkts : UInt32) (r : Return) : Decidable (r.Passes count numPkts) := by
  unfold Return.Passes
  split <;> infer_instance

/-- A call that has failed its check of the count. -/
def Returned.FailsCheck (out : Returned) : Prop :=
  out.result = .error (.EINVAL, .countInvalid) ∨ out.result = .error (.EINVAL, .overflows)

/-- The client with another count for a block. -/
def T.setCount (t : T) (x count : UInt32) : T :=
  { t with blockCounts := Function.update t.blockCounts x.toNat count }

/-- The count that is written is the one that is read. -/
@[simp]
theorem T.setCount_self (t : T) (x count : UInt32) :
    (t.setCount x count).blockCounts x.toNat = count :=
  Function.update_self ..

/-- The counts of other blocks stay as they are. -/
theorem T.setCount_of_ne (t : T) {x y : UInt32} (count : UInt32) (h : y ≠ x) :
    (t.setCount x count).blockCounts y.toNat = t.blockCounts y.toNat :=
  Function.update_of_ne (fun heq => h (UInt32.toNat_inj.mp heq)) ..

/-- Of two writes to one count the second stays. -/
@[simp]
theorem T.setCount_setCount (t : T) (x count count' : UInt32) :
    (t.setCount x count).setCount x count' = t.setCount x count' := by
  simp [T.setCount]

/-- The pointer of the block with index `x`. -/
def T.PointsTo (t : T) (block : Nat) (x : UInt32) : Prop :=
  testimonyBlockIndex t block = x ∧ x ≠ kInvalidBlockIndex

/-- A write to a count does not move the blocks. -/
theorem T.PointsTo.setCount (h : t.PointsTo block x) (count : UInt32) :
    (t.setCount x count).PointsTo block x := h

/-- `testimony_return_block` clears the count, and looks at it then. -/
theorem returnBlockCall_eq (h : t.PointsTo block x) (numPkts : UInt32) (errno : Option Nat) :
    returnBlockCall t block numPkts errno =
      if t.blockCounts x.toNat = 0 ∨ t.blockCounts x.toNat = numPkts then
        sendIndex (t.setCount x 0) x errno
      else ⟨t.setCount x 0, [], .error (.EINVAL, .countInvalid)⟩ := by
  obtain ⟨rfl, hne⟩ := h
  simp only [returnBlockCall, returnBlock, if_neg hne]
  by_cases hcount : t.blockCounts (testimonyBlockIndex t block).toNat = 0 ∨
      t.blockCounts (testimonyBlockIndex t block).toNat = numPkts
  · rw [if_neg (by tauto), if_pos hcount]
    rfl
  · rw [if_pos (by tauto), if_neg hcount]
    rfl

/-- `testimony_return_packets` subtracts from the count, and looks at it then. -/
theorem returnPacketsCall_eq (h : t.PointsTo block x) (packets numPkts : UInt32)
    (errno : Option Nat) :
    returnPacketsCall t block packets numPkts errno =
      if t.blockCounts x.toNat = packets then sendIndex (t.setCount x 0) x errno
      else ⟨t.setCount x (t.blockCounts x.toNat - packets), [],
        if t.blockCounts x.toNat < packets then .error (.EINVAL, .overflows) else .ok ()⟩ := by
  simp only [returnPacketsCall, returnPackets, h.1, if_neg h.2]
  by_cases heq : t.blockCounts x.toNat = packets
  · -- The count is zero behind the subtraction, and `testimony_return_block` lets it pass.
    rw [if_pos heq, if_pos heq]
    show returnBlockCall (t.setCount x (t.blockCounts x.toNat - packets)) block numPkts errno = _
    rw [returnBlockCall_eq (h.setCount _), T.setCount_self, if_pos (.inl (by simp [heq])),
      T.setCount_setCount]
  · rw [if_neg heq, if_neg heq]
    by_cases hlt : t.blockCounts x.toNat < packets
    · rw [if_pos hlt, if_pos hlt]
      rfl
    · rw [if_neg hlt, if_neg hlt]
      rfl

/-- What a return call leaves of a count if it does not send the index. -/
def Return.left (count : UInt32) : Return → UInt32
  | .block => 0
  | .packets amount => count - amount

/-- The message of a return call that fails its check. -/
def Return.msg : Return → ReturnMsg
  | .block => .countInvalid
  | .packets _ => .overflows

/-- A return call whose count passes sends the index, or has counted some packets. -/
theorem Return.call_pass (h : t.PointsTo block x) {r : Return} (errno : Option Nat)
    (hpass : r.Passes (t.blockCounts x.toNat) numPkts) :
    r.call t block numPkts errno = sendIndex (t.setCount x 0) x errno ∨
    r.call t block numPkts errno = ⟨t.setCount x (r.left (t.blockCounts x.toNat)), [], .ok ()⟩ := by
  cases r with
  | block =>
      have hcount : t.blockCounts x.toNat = 0 ∨ t.blockCounts x.toNat = numPkts := hpass
      rw [Return.call, returnBlockCall_eq h, if_pos hcount]
      exact .inl rfl
  | packets amount =>
      rw [Return.call, returnPacketsCall_eq h]
      by_cases heq : t.blockCounts x.toNat = amount
      · rw [if_pos heq]
        exact .inl rfl
      · rw [if_neg heq, if_neg (UInt32.not_lt.mpr hpass)]
        exact .inr rfl

/-- A return call whose count does not pass fails, and the count is spoilt. -/
theorem Return.call_fail (h : t.PointsTo block x) {r : Return} (errno : Option Nat)
    (hfail : ¬ r.Passes (t.blockCounts x.toNat) numPkts) :
    r.call t block numPkts errno =
      ⟨t.setCount x (r.left (t.blockCounts x.toNat)), [], .error (.EINVAL, r.msg)⟩ := by
  cases r with
  | block =>
      have hcount : ¬ (t.blockCounts x.toNat = 0 ∨ t.blockCounts x.toNat = numPkts) := hfail
      rw [Return.call, returnBlockCall_eq h, if_neg hcount, Return.left, Return.msg]
  | packets amount =>
      have hlt : t.blockCounts x.toNat < amount := UInt32.not_le.mp hfail
      rw [Return.call, returnPacketsCall_eq h, if_neg (UInt32.ne_of_lt hlt), if_pos hlt,
        Return.left, Return.msg]

/-- A count that does not pass does not stay. -/
theorem Return.left_ne {count : UInt32} {r : Return} (hfail : ¬ r.Passes count numPkts) :
    r.left count ≠ count := by
  cases r with
  | block => exact fun h => hfail (.inl h.symm)
  | packets amount =>
      intro h
      have hlt : count.toNat < amount.toNat := UInt32.lt_iff_toNat_lt.mp (UInt32.not_le.mp hfail)
      have heq := congrArg UInt32.toNat h
      rw [Return.left, UInt32.toNat_sub] at heq
      have := amount.toNat_lt
      omega

/-- A pointer from elsewhere. -/
theorem Return.call_foreign (h : testimonyBlockIndex t block = kInvalidBlockIndex) (r : Return)
    (errno : Option Nat) :
    r.call t block numPkts errno = ⟨t, [], .error (.EINVAL, .foreign)⟩ := by
  cases r with
  | block => simp [Return.call, returnBlockCall, returnBlock, h]
  | packets amount => simp [Return.call, returnPacketsCall, returnPackets, h]

/-- A return call fails its check exactly if the count does not pass. -/
theorem Return.failsCheck_iff (h : t.PointsTo block x) (r : Return) (errno : Option Nat) :
    (r.call t block numPkts errno).FailsCheck ↔ ¬ r.Passes (t.blockCounts x.toNat) numPkts := by
  constructor
  · intro hcheck hpass
    rcases Return.call_pass h errno hpass with heq | heq
    · rw [heq] at hcheck
      cases errno <;> simp [Returned.FailsCheck, sendIndex] at hcheck
    · rw [heq] at hcheck
      simp [Returned.FailsCheck] at hcheck
  · intro hfail
    rw [Return.call_fail h errno hfail]
    cases r with
    | block => exact .inl rfl
    | packets amount => exact .inr rfl

/-! ### Returns and receipts -/

/-- Block `i` has been sent back as often as it was received, or more often. -/
def Calls.Surplus (s : Calls) (i : UInt32) : Prop := s.given.count i ≤ s.sent.count i

/-- Whether there is a surplus is a comparison of two counts. -/
instance (s : Calls) (i : UInt32) : Decidable (s.Surplus i) :=
  inferInstanceAs (Decidable (_ ≤ _))

/-- What the program's own calls say of a block. -/
inductive Account where
  /-- It was received, and so many of its packets are not returned yet. -/
  | due (left : UInt32)
  /-- A return call has returned it, or it was never received. -/
  | settled
  /-- More packets were returned than there were. -/
  | overdrawn
  deriving DecidableEq

/-- A return call for the block, and whether it has returned 0. -/
def Account.ret (r : Return) (ok : Bool) : Account → Account
  | .due left =>
      match r with
      | .block => if ok then .settled else .due 0
      | .packets amount =>
          if amount < left then .due (left - amount)
          else if amount = left then if ok then .settled else .due 0
          else .overdrawn
  | .settled =>
      match r with
      | .block => .settled
      | .packets amount => if amount = 0 then .settled else .overdrawn
  | .overdrawn => .overdrawn

/-- The account of block `i` after one more call. -/
def Account.note (i : UInt32) (a : Account) : Entry → Account
  | .received j numPkts => if j = i then .due numPkts else a
  | .returned r j ok => if j = i then a.ret r ok else a

/-- The account of block `i`. -/
def account (i : UInt32) (notes : List Entry) : Account := notes.foldl (Account.note i) .settled

/-- The account of a block is kept entry by entry. -/
theorem account_append (i : UInt32) (notes : List Entry) (e : Entry) :
    account i (notes ++ [e]) = (account i notes).note i e :=
  List.foldl_concat ..

/-- A return call may be made. While packets are due, any may. For a block that is returned it may
only be a `testimony_return_packets` with an amount above zero, and only once. -/
def Account.Allows : Account → Return → Prop
  | .due _, _ => True
  | .settled, .packets amount => 0 < amount
  | .settled, .block => False
  | .overdrawn, _ => False

/-- Whether a call is allowed depends on the state of the account and the amount. -/
instance (a : Account) (r : Return) : Decidable (a.Allows r) := by
  unfold Account.Allows
  split <;> infer_instance

/-- The program makes only return calls that its account of the block allows. -/
def Prudent (s : Calls) : Op → Prop
  | .get _ _ _ => True
  | .ret r i _ _ => (account i s.notes).Allows r

/-- Only a return has to be looked at. -/
instance (s : Calls) (op : Op) : Decidable (Prudent s op) := by
  unfold Prudent
  split <;> infer_instance

/-- The program's pointers point to blocks of the ring, which stays where it is. -/
structure Calls.Pointers (t : T) (s : Calls) : Prop where
  conn_eq : s.t.conn = t.conn
  ring_eq : s.t.ring = t.ring
  seen_lt : ∀ i ∈ s.seen, i.toNat < t.conn.blockNr

/-- The pointer that the caller has for a block that it was given points to this block. -/
theorem Calls.Pointers.pointsTo {s : Calls} (h : s.Pointers t) (ht : t.Mapped) {i : UInt32}
    (hi : i ∈ s.seen) : s.t.PointsTo (s.t.block i.toNat) i := by
  have hmapped : s.t.Mapped := ⟨h.conn_eq ▸ ht.1, h.conn_eq ▸ h.ring_eq ▸ ht.2, h.conn_eq ▸ ht.3⟩
  have hidx := testimonyBlockIndex_block hmapped (h.conn_eq ▸ h.seen_lt i hi)
  rwa [UInt32.ofNat_toNat] at hidx

/-- What a call of `testimony_get_block` does. It makes no return, and the counts stay, or it has
put the number of packets of a block that it returns where a zero was. -/
structure Calls.Get (s s' : Calls) : Prop where
  conn_eq : s'.t.conn = s.t.conn
  ring_eq : s'.t.ring = s.t.ring
  sent_eq : s'.sent = s.sent
  seen : ∀ i ∈ s'.seen, i ∈ s.seen ∨ i.toNat < s.t.conn.blockNr
  received : s'.t.blockCounts = s.t.blockCounts ∧ s'.given = s.given ∧ s'.notes = s.notes ∨
    ∃ i numPkts, s'.t.blockCounts = (s.t.setCount i numPkts).blockCounts ∧
      s'.given = s.given ++ [i] ∧ s'.notes = s.notes ++ [.received i numPkts]

/-- A claim that fails leaves the client as it is. -/
theorem claimBlock_error {t t' : T} {x numPkts : UInt32} {e : Errno × GetMsg}
    (h : claimBlock t x numPkts = (.error e, t')) : t' = t := by
  simp only [claimBlock] at h
  split at h
  · cases h
    rfl
  · split at h <;> cases h
    rfl

/-- A call of `testimony_get_block` is one of these. -/
theorem Calls.get_of_step {s s' : Calls} {timeout : Int} {polls : List Poll} {numPkts : UInt32}
    (hstep : s.step (.get timeout polls numPkts) = some s') : s.Get s' := by
  simp only [Calls.step] at hstep
  split at hstep
  · rename_i i sock _
    -- An index was read, and the pointer of its block is given if there is such a block.
    have hseen : ∀ j ∈ (if i.toNat < s.t.conn.blockNr then s.seen ++ [i] else s.seen),
        j ∈ s.seen ∨ j.toNat < s.t.conn.blockNr := by
      intro j hj
      split at hj
      · rename_i hlt
        rcases List.mem_append.mp hj with hold | hnew
        · exact .inl hold
        · exact .inr (List.mem_singleton.mp hnew ▸ hlt)
      · exact .inl hj
    split at hstep
    · rename_i p t' heq
      obtain ⟨-, -, rfl⟩ := of_claimBlock_ok heq
      cases hstep
      exact ⟨rfl, rfl, rfl, hseen, .inr ⟨i, numPkts, rfl, rfl, rfl⟩⟩
    · rename_i e t' heq
      obtain rfl := claimBlock_error heq
      cases hstep
      exact ⟨rfl, rfl, rfl, hseen, .inl ⟨rfl, rfl, rfl⟩⟩
  · cases hstep
    exact ⟨rfl, rfl, rfl, fun j => .inl, .inl ⟨rfl, rfl, rfl⟩⟩
  · cases hstep
    exact ⟨rfl, rfl, rfl, fun j => .inl, .inl ⟨rfl, rfl, rfl⟩⟩
  · cases hstep

/-- A return call changes nothing but the count of its block. -/
theorem Return.call_t (h : t.PointsTo block x) (r : Return) (numPkts : UInt32)
    (errno : Option Nat) : ∃ count, (r.call t block numPkts errno).t = t.setCount x count := by
  by_cases hpass : r.Passes (t.blockCounts x.toNat) numPkts
  · rcases Return.call_pass h errno hpass with heq | heq
    · rw [heq]
      cases errno <;> exact ⟨0, rfl⟩
    · exact ⟨_, by rw [heq]⟩
  · exact ⟨_, by rw [Return.call_fail h errno hpass]⟩

/-- A return call sends the index of its block once at most, and only if the count passes. -/
theorem Return.call_sent (h : t.PointsTo block x) (r : Return) (numPkts : UInt32)
    (errno : Option Nat) : (r.call t block numPkts errno).sent = [] ∨
      (r.call t block numPkts errno).sent = [x] ∧ r.Passes (t.blockCounts x.toNat) numPkts := by
  by_cases hpass : r.Passes (t.blockCounts x.toNat) numPkts
  · rcases Return.call_pass h errno hpass with heq | heq
    · rw [heq]
      cases errno with
      | none => exact .inr ⟨rfl, hpass⟩
      | some e => exact .inl rfl
    · exact .inl (by rw [heq])
  · exact .inl (by rw [Return.call_fail h errno hpass])

/-- No call moves the mapping or the blocks in it. -/
theorem Calls.Pointers.step {s s' : Calls} {op : Op} (ht : t.Mapped) (h : s.Pointers t)
    (hstep : s.step op = some s') : s'.Pointers t := by
  cases op with
  | get timeout polls numPkts =>
      have hget := Calls.get_of_step hstep
      refine ⟨hget.conn_eq.trans h.conn_eq, hget.ring_eq.trans h.ring_eq, fun i hi => ?_⟩
      rcases hget.seen i hi with hold | hlt
      · exact h.seen_lt i hold
      · exact h.conn_eq ▸ hlt
  | ret r i numPkts errno =>
      simp only [Calls.step, Option.ite_none_right_eq_some, Option.some.injEq] at hstep
      obtain ⟨hi, rfl⟩ := hstep
      obtain ⟨count, hcount⟩ := r.call_t (h.pointsTo ht hi) numPkts errno
      refine ⟨?_, ?_, h.seen_lt⟩
      · show (r.call s.t _ numPkts errno).t.conn = _
        rw [hcount]
        exact h.conn_eq
      · show (r.call s.t _ numPkts errno).t.ring = _
        rw [hcount]
        exact h.ring_eq

/-- What an account says of the count of its block, and of the returns and receipts so far. While
packets are due, one receipt is not returned yet. -/
def Account.Fits (count : UInt32) (sent given : Nat) : Account → Prop
  | .due left => count = left ∧ sent < given
  | .settled => count = 0 ∧ sent ≤ given
  | .overdrawn => sent ≤ given

/-- Whatever the account says, no more was sent back than received. -/
theorem Account.Fits.le {a : Account} {count : UInt32} {sent given : Nat}
    (h : a.Fits count sent given) : sent ≤ given := by
  cases a with
  | due left => exact Nat.le_of_lt h.2
  | settled => exact h.2
  | overdrawn => exact h

/-- The index is sent for a receipt that is not returned yet, or its `send` fails. Then the count is
zero, and so the call can be made again. -/
theorem Account.Fits.sendIndex {sent given : Nat} (h : sent < given) (t : T) (x : UInt32)
    (errno : Option Nat) :
    (if (sendIndex (t.setCount x 0) x errno).result.isOk then Account.settled else .due 0).Fits
      ((Client.sendIndex (t.setCount x 0) x errno).t.blockCounts x.toNat)
      (sent + (Client.sendIndex (t.setCount x 0) x errno).sent.count x) given := by
  cases errno with
  | none =>
      refine ⟨T.setCount_self .., ?_⟩
      rw [Client.sendIndex, List.count_singleton_self]
      exact h
  | some e => exact ⟨T.setCount_self .., h⟩

/-- A return call that the account allows keeps the account right. -/
theorem Account.Fits.ret {a : Account} {r : Return} {sent given : Nat} (h : t.PointsTo block x)
    (hfits : a.Fits (t.blockCounts x.toNat) sent given) (hallows : a.Allows r)
    (numPkts : UInt32) (errno : Option Nat) :
    (a.ret r (r.call t block numPkts errno).result.isOk).Fits
      ((r.call t block numPkts errno).t.blockCounts x.toNat)
      (sent + (r.call t block numPkts errno).sent.count x) given := by
  cases a with
  | due left =>
      obtain ⟨rfl, hlt⟩ := hfits
      cases r with
      | block =>
          rw [Return.call, returnBlockCall_eq h]
          split
          · exact Account.Fits.sendIndex hlt t x errno
          · exact ⟨T.setCount_self .., hlt⟩
      | packets amount =>
          rw [Return.call, returnPacketsCall_eq h, Account.ret]
          by_cases heq : t.blockCounts x.toNat = amount
          · rw [if_pos heq, if_neg (heq ▸ UInt32.lt_irrefl _), if_pos heq.symm]
            exact Account.Fits.sendIndex hlt t x errno
          · rw [if_neg heq]
            by_cases hless : amount < t.blockCounts x.toNat
            · rw [if_pos hless]
              exact ⟨T.setCount_self .., hlt⟩
            · rw [if_neg hless, if_neg (Ne.symm heq)]
              exact Nat.le_of_lt hlt
  | settled =>
      obtain ⟨hzero, hle⟩ := hfits
      cases r with
      | block => exact hallows.elim
      | packets amount =>
          -- The count is zero, so any amount is too much.
          have hne : amount ≠ 0 := (UInt32.ne_of_lt hallows).symm
          rw [Return.call, returnPacketsCall_eq h, hzero, if_neg hne.symm, Account.ret, if_neg hne]
          exact hle
  | overdrawn => exact hallows.elim

/-- The program's accounts of all blocks are right. -/
def Calls.Balanced (s : Calls) : Prop :=
  ∀ i, (account i s.notes).Fits (s.t.blockCounts i.toNat) (s.sent.count i) (s.given.count i)

/-- A call of `testimony_get_block` keeps the accounts right. -/
theorem Calls.Balanced.get {s s' : Calls} (h : s.Balanced) (hget : s.Get s') : s'.Balanced := by
  intro i
  rcases hget.received with ⟨hcounts, hgiven, hnotes⟩ | ⟨x, numPkts, hcounts, hgiven, hnotes⟩
  · rw [hcounts, hget.sent_eq, hgiven, hnotes]
    exact h i
  · rw [hcounts, hget.sent_eq, hgiven, hnotes, account_append, Account.note, List.count_append]
    by_cases hxi : x = i
    · -- One receipt more than before.
      subst hxi
      rw [if_pos rfl, List.count_singleton_self]
      exact ⟨T.setCount_self .., Nat.lt_succ_of_le (h x).le⟩
    · rw [if_neg hxi, T.setCount_of_ne _ _ (Ne.symm hxi),
        List.count_eq_zero.mpr fun hmem => hxi (List.mem_singleton.mp hmem).symm]
      exact h i

/-- A return call that the program's account allows keeps the accounts right. -/
theorem Calls.Balanced.ret {s : Calls} (h : s.Balanced) {r : Return}
    (hpoints : s.t.PointsTo block x) (hallows : (account x s.notes).Allows r) (numPkts : UInt32)
    (errno : Option Nat) :
    Calls.Balanced { s with
      t := (r.call s.t block numPkts errno).t
      sent := s.sent ++ (r.call s.t block numPkts errno).sent
      notes := s.notes ++ [.returned r x (r.call s.t block numPkts errno).result.isOk] } := by
  intro i
  simp only [account_append, Account.note, List.count_append]
  by_cases hxi : x = i
  · subst hxi
    rw [if_pos rfl]
    exact (h x).ret hpoints hallows numPkts errno
  · -- The counts and the returns of the other blocks are not touched.
    obtain ⟨count, hcount⟩ := r.call_t hpoints numPkts errno
    have hsent : (r.call s.t block numPkts errno).sent.count i = 0 := by
      rcases r.call_sent hpoints numPkts errno with hnil | ⟨hone, -⟩
      · rw [hnil, List.count_nil]
      · rw [hone]
        exact List.count_eq_zero.mpr fun hmem => hxi (List.mem_singleton.mp hmem).symm
    rw [if_neg hxi, hcount, T.setCount_of_ne _ _ (Ne.symm hxi), hsent]
    exact h i

/-- Every call of a prudent program keeps its accounts right. -/
theorem Calls.Balanced.step {s s' : Calls} {op : Op} (ht : t.Mapped) (hp : s.Pointers t)
    (h : s.Balanced) (hop : Prudent s op) (hstep : s.step op = some s') : s'.Balanced := by
  cases op with
  | get timeout polls numPkts => exact h.get (Calls.get_of_step hstep)
  | ret r x numPkts errno =>
      simp only [Calls.step, Option.ite_none_right_eq_some, Option.some.injEq] at hstep
      obtain ⟨hx, rfl⟩ := hstep
      exact h.ret (hp.pointsTo ht hx) hop numPkts errno

/-- With the counts of a new client, the accounts of a prudent program are right in every run. -/
theorem balanced_of_prudent (ht : t.Mapped) (hzero : ∀ i, t.blockCounts i = 0) {s : Calls}
    (hs : (callSystem t).ReachableBy Prudent s) : s.Pointers t ∧ s.Balanced := by
  refine hs.invariant (P := fun s => s.Pointers t ∧ s.Balanced)
    ⟨⟨rfl, rfl, nofun⟩, fun i => ⟨hzero i.toNat, Nat.le_refl 0⟩⟩ ?_
  intro s op s' _ ⟨hp, hbal⟩ hop hstep
  exact ⟨hp.step ht hstep, hbal.step ht hp hop hstep⟩

/-- A prudent program sends no block back more often than it was given the block. A return call that
is still allowed for a block in surplus fails its check and sends nothing. The calls that are not
allowed for a block that was returned are the ones that go through: they send its index again. -/
theorem sent_le_given (ht : t.Mapped) (hzero : ∀ i, t.blockCounts i = 0) {s : Calls}
    (hs : (callSystem t).ReachableBy Prudent s) :
    (∀ i, s.sent.count i ≤ s.given.count i) ∧
    ∀ r i numPkts, i ∈ s.seen → s.Surplus i →
      (∀ errno, Prudent s (.ret r i numPkts errno) →
        (r.call s.t (s.t.block i.toNat) numPkts errno).sent = [] ∧
        (r.call s.t (s.t.block i.toNat) numPkts errno).FailsCheck) ∧
      (account i s.notes = .settled → ¬ Prudent s (.ret r i numPkts none) →
        (r.call s.t (s.t.block i.toNat) numPkts none).sent = [i] ∧
        (r.call s.t (s.t.block i.toNat) numPkts none).result = .ok ()) := by
  obtain ⟨hp, hbal⟩ := balanced_of_prudent ht hzero hs
  refine ⟨fun i => (hbal i).le, fun r i numPkts hi hsurplus => ?_⟩
  have hpoints := hp.pointsTo ht hi
  have hfits := hbal i
  refine ⟨fun errno hprudent => ?_, fun hsettled hnot => ?_⟩
  · have hfail : ¬ r.Passes (s.t.blockCounts i.toNat) numPkts := by
      have hallows : (account i s.notes).Allows r := hprudent
      generalize account i s.notes = a at hfits hallows
      cases a with
      | due left => exact absurd hfits.2 (Nat.not_lt.mpr hsurplus)
      | settled =>
          cases r with
          | block => exact hallows.elim
          | packets amount =>
              rw [hfits.1]
              exact UInt32.not_le.mpr hallows
      | overdrawn => exact hallows.elim
    exact ⟨by rw [Return.call_fail hpoints errno hfail],
      (r.failsCheck_iff hpoints errno).mpr hfail⟩
  · have hallows : ¬ (account i s.notes).Allows r := hnot
    rw [hsettled] at hfits hallows
    cases r with
    | block =>
        rw [Return.call, returnBlockCall_eq hpoints, if_pos (.inl hfits.1)]
        exact ⟨rfl, rfl⟩
    | packets amount =>
        have hamount : 0 = amount := (UInt32.le_zero_iff.mp (UInt32.not_lt.mp hallows)).symm
        rw [Return.call, returnPacketsCall_eq hpoints, if_pos (hfits.1.trans hamount)]
        exact ⟨rfl, rfl⟩

/-- A client to which the server has sent block 1. -/
def T.oneBlock : T := T.onRing 4 [.data 0 [0, 0, 1]]

/-- A block with two packets is returned one by one. A third return is caught. -/
theorem sent_le_given_caught :
    let late : Op := .ret (.packets 1) 1 2 none
    let ops : List Op := [.get (-1) [] 2, .ret (.packets 1) 1 2 none, .ret (.packets 1) 1 2 none]
    ∃ s, (callSystem .oneBlock).execBy Prudent (callSystem .oneBlock).init ops = some s ∧
      s.given = [1] ∧ s.sent = [1] ∧ Prudent s late ∧ s.sent.count 1 ≤ s.given.count 1 ∧
      (Return.call s.t (s.t.block 1) 2 none (.packets 1)).FailsCheck := by
  intro late ops
  have hrun : ((callSystem .oneBlock).execBy Prudent (callSystem .oneBlock).init ops).map
      (fun s => (s.seen, s.given, s.sent, decide (Prudent s late)))
        = some ([1], [1], [1], true) := by decide +kernel
  obtain ⟨s, hs, hview⟩ := Option.map_eq_some_iff.mp hrun
  obtain ⟨hseen, hgiven, hsent, hlate⟩ : s.seen = [1] ∧ s.given = [1] ∧ s.sent = [1] ∧
      Prudent s late := by simpa only [Prod.mk.injEq, decide_eq_true_eq] using hview
  have hsurplus : s.Surplus 1 := by
    rw [Calls.Surplus, hgiven, hsent]
  obtain ⟨hle, hcaught⟩ := sent_le_given (T.mapped_onRing (by decide) _) (fun _ => rfl)
    (ReachableBy.init.exec ops hs)
  exact ⟨s, hs, hgiven, hsent, hlate, hle 1,
    ((hcaught (.packets 1) 1 2 (by simp [hseen]) hsurplus).1 none hlate).2⟩

/-- Both packets of a block are returned, and then the block: its index is sent twice. The count
is zero as it would be in the middle of `testimony_return_packets`. -/
theorem returned_twice :
    ∃ s, (callSystem .oneBlock).Reachable s ∧ s.given.count 1 = 1 ∧ s.sent.count 1 = 2 := by
  have hrun : ((callSystem .oneBlock).exec (callSystem .oneBlock).init
      [.get (-1) [] 2, .ret (.packets 2) 1 2 none, .ret .block 1 2 none]).map
        (fun s => (s.given.count 1, s.sent.count 1)) = some (1, 2) := by decide +kernel
  obtain ⟨s, hs, hview⟩ := Option.map_eq_some_iff.mp hrun
  exact ⟨s, reachable_of_exec hs, congrArg Prod.fst hview, congrArg Prod.snd hview⟩

/-! ### Counts after a failure -/

/-- The amounts with which the rest of a block is returned as it should be. -/
structure T.Due (t : T) (x : UInt32) (amounts : List UInt32) : Prop where
  pos : ∀ p ∈ amounts, 0 < p
  sum_eq : (amounts.map UInt32.toNat).sum = (t.blockCounts x.toNat).toNat
  ne_nil : amounts ≠ []

/-- A call that counts some packets and not all. -/
theorem returnAll_cons_lt (h : t.PointsTo block x) {p : UInt32} (amounts : List UInt32)
    (hlt : p < t.blockCounts x.toNat) :
    (returnAll block numPkts t (p :: amounts)).2 =
      (returnAll block numPkts (t.setCount x (t.blockCounts x.toNat - p)) amounts).2 := by
  rw [returnAll, returnPacketsCall_eq h, if_neg (UInt32.ne_of_lt hlt).symm]
  rfl

/-- Amounts that do not reach the count send nothing. -/
theorem returnAll_short (amounts : List UInt32) : ∀ {t : T}, t.PointsTo block x →
    (amounts.map UInt32.toNat).sum < (t.blockCounts x.toNat).toNat →
    (returnAll block numPkts t amounts).2 = [] := by
  induction amounts with
  | nil => exact fun _ _ => rfl
  | cons p amounts ih =>
      intro t h hlt
      rw [List.map_cons, List.sum_cons] at hlt
      have hp : p < t.blockCounts x.toNat := UInt32.lt_iff_toNat_lt.mpr (by omega)
      rw [returnAll_cons_lt h amounts hp]
      refine ih (h.setCount _) ?_
      rw [T.setCount_self, UInt32.toNat_sub_of_le _ _ (UInt32.le_of_lt hp)]
      omega

/-- The amounts that are due return the block once. -/
theorem returnAll_due (amounts : List UInt32) : ∀ {t : T}, t.PointsTo block x →
    t.Due x amounts → (returnAll block numPkts t amounts).2 = [x] := by
  induction amounts with
  | nil => exact fun _ hdue => absurd rfl hdue.ne_nil
  | cons p amounts ih =>
      intro t h hdue
      have hsum := hdue.sum_eq
      rw [List.map_cons, List.sum_cons] at hsum
      cases amounts with
      | nil =>
          -- The last amount is all that is left.
          have heq : t.blockCounts x.toNat = p := UInt32.toNat_inj.mp (by simpa using hsum.symm)
          rw [returnAll, returnPacketsCall_eq h, if_pos heq]
          rfl
      | cons q amounts =>
          have hq := UInt32.lt_iff_toNat_lt.mp (hdue.pos q (by simp))
          rw [List.map_cons, List.sum_cons] at hsum
          have hp : p < t.blockCounts x.toNat := UInt32.lt_iff_toNat_lt.mpr (by omega)
          rw [returnAll_cons_lt h _ hp]
          refine ih (h.setCount _) ⟨fun q hq => hdue.pos q (List.mem_cons_of_mem _ hq), ?_, nofun⟩
          rw [T.setCount_self, UInt32.toNat_sub_of_le _ _ (UInt32.le_of_lt hp), List.map_cons,
            List.sum_cons]
          omega

/-- Amounts that start from zero send nothing: the first one is too much and leaves a count that
the others do not reach. -/
theorem returnAll_zero (h : t.PointsTo block x) (hzero : t.blockCounts x.toNat = 0)
    {amounts : List UInt32} (hpos : ∀ p ∈ amounts, 0 < p)
    (hsum : (amounts.map UInt32.toNat).sum < 2 ^ 32) :
    (returnAll block numPkts t amounts).2 = [] := by
  cases amounts with
  | nil => rfl
  | cons p amounts =>
      have hp := hpos p (List.mem_cons_self ..)
      rw [List.map_cons, List.sum_cons] at hsum
      rw [returnAll, returnPacketsCall_eq h, hzero, if_neg (UInt32.ne_of_lt hp)]
      refine returnAll_short amounts (h.setCount _) ?_
      have hp' : 0 < p.toNat := UInt32.lt_iff_toNat_lt.mp hp
      rw [T.setCount_self, UInt32.toNat_sub, UInt32.toNat_zero]
      omega

/-- After a failed check, the calls that are due do not return the block. They would have
returned it before. -/
theorem Return.due_lost (h : t.PointsTo block x) {r : Return} {errno : Option Nat}
    (hcheck : (r.call t block numPkts errno).FailsCheck) {amounts : List UInt32}
    (hdue : t.Due x amounts) :
    (returnAll block numPkts t amounts).2 = [x] ∧
    (returnAll block numPkts (r.call t block numPkts errno).t amounts).2 = [] := by
  refine ⟨returnAll_due amounts h hdue, ?_⟩
  have hfail := (r.failsCheck_iff h errno).mp hcheck
  have hlt := (t.blockCounts x.toNat).toNat_lt
  rw [Return.call_fail h errno hfail]
  cases r with
  | block =>
      exact returnAll_zero (h.setCount _) (T.setCount_self ..) hdue.pos (hdue.sum_eq ▸ hlt)
  | packets amount =>
      -- The count has wrapped around, and is larger than it was.
      have hmore : (t.blockCounts x.toNat).toNat < amount.toNat :=
        UInt32.lt_iff_toNat_lt.mp (UInt32.not_le.mp hfail)
      have hamount := amount.toNat_lt
      refine returnAll_short amounts (h.setCount _) ?_
      rw [T.setCount_self, hdue.sum_eq, Return.left, UInt32.toNat_sub]
      omega

/-- If a return call fails its check, it has sent nothing and the counts are as they were. Then
the calls that are still due return the block once. -/
def Return.Intact (t : T) (block : Nat) (numPkts : UInt32) (errno : Option Nat) (r : Return) :
    Prop :=
  (r.call t block numPkts errno).FailsCheck →
    (r.call t block numPkts errno).sent = [] ∧
    (r.call t block numPkts errno).t.blockCounts = t.blockCounts ∧
    ∀ amounts, t.Due (testimonyBlockIndex t block) amounts →
      (returnAll block numPkts (r.call t block numPkts errno).t amounts).2
        = [testimonyBlockIndex t block]

/-- Only a call for a block of the ring fails its check of the count. -/
theorem Return.pointsTo_of_failsCheck {r : Return} {errno : Option Nat}
    (hcheck : (r.call t block numPkts errno).FailsCheck) :
    t.PointsTo block (testimonyBlockIndex t block) := by
  refine ⟨rfl, fun hforeign => ?_⟩
  rw [Return.call_foreign hforeign] at hcheck
  simp [Returned.FailsCheck] at hcheck

/-- A call that fails its check has changed the count already. -/
theorem Return.intact_iff (t : T) (block : Nat) (numPkts : UInt32) (errno : Option Nat)
    (r : Return) :
    r.Intact t block numPkts errno ↔
      testimonyBlockIndex t block = kInvalidBlockIndex ∨
      r.Passes (t.blockCounts (testimonyBlockIndex t block).toNat) numPkts := by
  constructor
  · intro hintact
    by_contra hnot
    obtain ⟨hx, hfail⟩ := not_or.mp hnot
    have hpoints : t.PointsTo block (testimonyBlockIndex t block) := ⟨rfl, hx⟩
    obtain ⟨-, hcounts, -⟩ := hintact ((r.failsCheck_iff hpoints errno).mpr hfail)
    rw [Return.call_fail hpoints errno hfail] at hcounts
    have hsame := congrFun hcounts (testimonyBlockIndex t block).toNat
    rw [T.setCount_self] at hsame
    exact Return.left_ne hfail hsame
  · intro hnot hcheck
    have hpoints := Return.pointsTo_of_failsCheck hcheck
    rcases hnot with hx | hpass
    · exact absurd hx hpoints.2
    · exact absurd hpass ((r.failsCheck_iff hpoints errno).mp hcheck)

/-- A failed return call never leaves the counts as they were. The requirement is met just where no
call fails: the pointer is from elsewhere, or the count passes. Where a call fails, the calls that
are still due would have returned the block before it, and do not return it any more. -/
theorem rejected_return_intact_iff (t : T) (block : Nat) (numPkts : UInt32) (errno : Option Nat)
    (r : Return) :
    (r.Intact t block numPkts errno ↔
      testimonyBlockIndex t block = kInvalidBlockIndex ∨
      match r with
      | .block => t.blockCounts (testimonyBlockIndex t block).toNat = 0 ∨
          t.blockCounts (testimonyBlockIndex t block).toNat = numPkts
      | .packets amount => amount ≤ t.blockCounts (testimonyBlockIndex t block).toNat) ∧
    ((r.call t block numPkts errno).FailsCheck →
      ∀ amounts, t.Due (testimonyBlockIndex t block) amounts →
        (returnAll block numPkts t amounts).2 = [testimonyBlockIndex t block] ∧
        (returnAll block numPkts (r.call t block numPkts errno).t amounts).2 = []) := by
  constructor
  · have hiff := r.intact_iff t block numPkts errno
    cases r <;> exact hiff
  · intro hcheck amounts hdue
    exact Return.due_lost (Return.pointsTo_of_failsCheck hcheck) hcheck hdue

/-- Two packets are left, and a call wants to return three. The count it leaves is so large that
the return of the two packets does not return the block. -/
theorem rejected_return_spoils :
    let t := (T.onRing 4 []).setCount 1 2
    let out := Return.call t (t.block 1) 2 none (.packets 3)
    out.FailsCheck ∧ t.blockCounts 1 = 2 ∧ out.t.blockCounts 1 = 0xFFFFFFFF ∧
      (returnAll (t.block 1) 2 out.t [2]).2 = [] ∧
      ¬ Return.Intact t (t.block 1) 2 none (.packets 3) := by
  intro t out
  have hcheck : out.FailsCheck := .inr (by decide +kernel)
  have hbefore : t.blockCounts 1 = 2 := by decide +kernel
  have hafter : out.t.blockCounts 1 = 0xFFFFFFFF := by decide +kernel
  refine ⟨hcheck, hbefore, hafter, by decide +kernel, fun hintact => ?_⟩
  have hsame := congrFun (hintact hcheck).2.1 1
  rw [hbefore] at hsame
  exact absurd (hafter.symm.trans hsame) (by decide)

end Testimony.Client
