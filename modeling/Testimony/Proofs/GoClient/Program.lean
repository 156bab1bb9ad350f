import Testimony.GoClient.Program
import Testimony.Lib.Except

/-!
# `Testimony.Proofs.GoClient.Program`: a block in the hands of a Go program

A block is on loan until its `Return` succeeds, and `Spent` after that: its slice is `nil`, so
there is nothing in it to point at and nothing to slice. `Lease.use_cases` lists what a call can
do, and `Lease.Spent.use` what is left of it on a spent block.

`returned_once`: whatever a program does with a block, the index is written at most once, and
behind the `Return` that wrote it no call yields a packet any more. `Packet` is the exception: it
goes on returning the header that it had before the `Return`, a pointer into a block that is not the
program's any more.
-/

set_option autoImplicit false

namespace Testimony.GoClient

open Lib Tpacket

/-! ### The iterator's calls -/

/-- `Next` does not touch the slice. It finds a packet only in a slice that has something in it, and
leaves the header of the last one if it finds none. -/
theorem next_ok {b b' : Block} {more : Bool} (h : b.next = .ok (more, b')) :
    b'.B = b.B ∧ (more = true → 0 < b.B.len) ∧ (more = false → b'.pkt = b.pkt) := by
  obtain ⟨b₁, hB, hpkt, hrest⟩ : ∃ b₁ : Block, b₁.B = b.B ∧ b₁.pkt = b.pkt ∧
      (if b₁.left ≤ 0 then .ok (false, b₁)
        else b₁.B.addr b₁.offset >>= fun pkt =>
          .ok (true, { b₁ with left := b₁.left - 1, pkt := some pkt })) =
        (.ok (more, b') : Except Panic (Bool × Block)) := by
    unfold Block.next at h
    split at h
    · obtain ⟨header, -, hrest⟩ := bind_eq_ok.mp h
      refine ⟨_, ?_, ?_, hrest⟩ <;> rfl
    · split at h
      · cases h
      · refine ⟨_, ?_, ?_, h⟩ <;> rfl
  rw [← hB, ← hpkt]
  split at hrest
  · cases hrest
    exact ⟨rfl, nofun, fun _ => rfl⟩
  · obtain ⟨pkt, haddr, heq⟩ := bind_eq_ok.mp hrest
    cases heq
    unfold Slice.addr at haddr
    split at haddr <;> cases haddr
    exact ⟨rfl, fun _ => by omega, nofun⟩

/-- A slice expression on a slice without room has no bytes. -/
theorem slice_eq_nil {B : Slice} (hcap : B.cap = 0) {low high : Nat} {bs : List UInt8}
    (h : B.slice low high = .ok bs) : bs = [] := by
  unfold Slice.slice at h
  split at h
  · cases h
    have hzero : high - low = 0 := by omega
    rw [hzero]
    rfl
  · cases h

/-! ### On loan, and spent -/

/-- A block that the program has returned. -/
structure Lease.Spent (b : Lease) : Prop where
  t_eq : b.t = false
  len_eq : b.block.B.len = 0
  cap_eq : b.block.B.cap = 0

/-- An answer of a call on a returned block: there is no packet, or it has no bytes. `Packet`
returns the header `pkt` that the block was returned with. -/
def Answer.Blank (pkt : Option Nat) : Answer → Prop
  | .next more => more = false
  | .packetData data => data = none ∨ data = some []
  | .packet header => header = pkt
  | .ret _ => False

/-- What a call does: it leaves the block on loan or spent as it was, or it returns it. -/
theorem Lease.use_cases {b b' : Lease} {mem : Mem} {u : Use} {a : Answer} {sent : List UInt32}
    (h : b.use mem u = .ok (a, sent, b')) :
    (a ≠ .ret none ∧ sent = [] ∧ b'.t = b.t ∧ b'.i = b.i ∧ b'.block.B.len = b.block.B.len ∧
      b'.block.B.cap = b.block.B.cap) ∨
    (u = .ret none ∧ a = .ret none ∧ sent = [UInt32.ofNat b.i] ∧ b.t = true ∧ b'.Spent ∧
      b'.block.packet = b.block.packet) := by
  cases u with
  | next =>
      obtain ⟨⟨more, block⟩, hnext, hb⟩ := bind_eq_ok.mp h
      cases hb
      obtain ⟨hB, -⟩ := next_ok hnext
      have hlen : block.B.len = b.block.B.len := by rw [hB]; rfl
      have hcap : block.B.cap = b.block.B.cap := by rw [hB]; rfl
      exact .inl ⟨nofun, rfl, rfl, rfl, hlen, hcap⟩
  | packet =>
      cases h
      exact .inl ⟨nofun, rfl, rfl, rfl, rfl, rfl⟩
  | packetData =>
      obtain ⟨data, -, hb⟩ := bind_eq_ok.mp h
      cases hb
      exact .inl ⟨nofun, rfl, rfl, rfl, rfl, rfl⟩
  | ret errno =>
      obtain ⟨⟨err, words, b₁⟩, hret, hb⟩ := bind_eq_ok.mp h
      cases hb
      unfold Lease.ret at hret
      split at hret
      · rename_i ht
        cases errno with
        | some e =>
            cases hret
            exact .inl ⟨nofun, rfl, rfl, rfl, rfl, rfl⟩
        | none =>
            cases hret
            exact .inr ⟨rfl, rfl, rfl, ht, ⟨rfl, rfl, rfl⟩, rfl⟩
      · cases hret

/-- A call on a spent block that does not panic sends nothing and reads nothing, and the header that
`Packet` returns stays. -/
theorem Lease.Spent.use {b b' : Lease} (hb : b.Spent) {mem : Mem} {u : Use} {a : Answer}
    {sent : List UInt32} (h : b.use mem u = .ok (a, sent, b')) :
    a.Blank b.block.packet ∧ sent = [] ∧ b'.Spent ∧ b'.block.packet = b.block.packet := by
  rcases Lease.use_cases h with ⟨-, hsent, ht, -, hlen, hcap⟩ | ⟨-, -, -, ht, -⟩
  · have hspent : b'.Spent := ⟨ht.trans hb.t_eq, hlen.trans hb.len_eq, hcap.trans hb.cap_eq⟩
    suffices a.Blank b.block.packet ∧ b'.block.packet = b.block.packet from
      ⟨this.1, hsent, hspent, this.2⟩
    cases u with
    | next =>
        obtain ⟨⟨more, block⟩, hnext, heq⟩ := bind_eq_ok.mp h
        cases heq
        cases more with
        | false => exact ⟨rfl, (next_ok hnext).2.2 rfl⟩
        | true =>
            have hpos := (next_ok hnext).2.1 rfl
            have hzero : (b.block.withMem mem).B.len = 0 := hb.len_eq
            omega
    | packet =>
        cases h
        exact ⟨rfl, rfl⟩
    | packetData =>
        obtain ⟨data, hdata, heq⟩ := bind_eq_ok.mp h
        cases heq
        refine ⟨?_, rfl⟩
        unfold Block.packetData at hdata
        split at hdata
        · cases hdata
          exact .inl rfl
        · obtain ⟨bs, hbs, heq⟩ := bind_eq_ok.mp hdata
          cases heq
          exact .inr (congrArg some (slice_eq_nil (B := (b.block.withMem mem).B) hb.cap_eq hbs))
    | ret errno =>
        obtain ⟨r, hret, -⟩ := bind_eq_ok.mp h
        simp [Lease.ret, hb.t_eq] at hret
  · rw [hb.t_eq] at ht
    cases ht

/-- And so do any number of them. -/
theorem Lease.Spent.run (us : List (Mem × Use)) : ∀ {b : Lease}, b.Spent →
    (∀ a ∈ (b.run us).1, a.Blank b.block.packet) ∧ (b.run us).2 = [] := by
  induction us with
  | nil => exact fun _ => ⟨nofun, rfl⟩
  | cons mu us ih =>
      intro b hb
      obtain ⟨mem, u⟩ := mu
      unfold Lease.run
      split
      · rename_i a sent b' huse
        obtain ⟨ha, hsent, hb', hpacket⟩ := hb.use huse
        obtain ⟨has, hwords⟩ := ih hb'
        rw [hpacket] at has
        exact ⟨List.forall_mem_cons.mpr ⟨ha, has⟩, by rw [hsent, hwords]; rfl⟩
      · exact ⟨nofun, rfl⟩

/-- The block after some calls, unless one of them panics. -/
def Lease.after (b : Lease) : List (Mem × Use) → Except Panic Lease
  | [] => .ok b
  | (mem, u) :: us => do
      let (_, _, b) ← b.use mem u
      b.after us

/-- The calls `us` on a block come to its return. One of them is the `Return` that succeeds and
writes the index. Behind it there is no packet to be had, and `Packet` returns the header that it
had before. -/
structure Lease.Returns (b : Lease) (us : List (Mem × Use)) : Prop where
  split : ∃ before mem after returned answers,
    us = before ++ (mem, .ret none) :: after ∧
    b.after before = .ok returned ∧
    (b.run us).1 = (b.run before).1 ++ .ret none :: answers ∧
    (∀ a ∈ (b.run before).1, a ≠ .ret none) ∧
    ∀ a ∈ answers, a.Blank returned.block.packet
  sent : (b.run us).2 = [UInt32.ofNat b.i]

/-- A call that does not return the block, before the calls that do. -/
theorem Lease.Returns.cons {b b' : Lease} {us : List (Mem × Use)} {mem : Mem} {u : Use} {a : Answer}
    (h : b'.Returns us) (huse : b.use mem u = .ok (a, [], b')) (ha : a ≠ .ret none)
    (hi : b'.i = b.i) : b.Returns ((mem, u) :: us) := by
  obtain ⟨⟨before, mem', after, returned, answers, hus, hafter, hrun, hbefore, hanswers⟩, hsent⟩ :=
    h
  have hcons : ∀ us, b.run ((mem, u) :: us) = (a :: (b'.run us).1, (b'.run us).2) := fun us => by
    simp only [Lease.run, huse, List.nil_append]
  refine ⟨⟨(mem, u) :: before, mem', after, returned, answers, by rw [hus]; rfl, ?_, ?_, ?_,
    hanswers⟩, ?_⟩
  · simp only [Lease.after, huse]
    exact hafter
  · rw [hcons, hcons, hrun]
    rfl
  · rw [hcons]
    exact List.forall_mem_cons.mpr ⟨ha, hbefore⟩
  · rw [hcons, ← hi]
    exact hsent

/-- What the calls on a block on loan come to. -/
theorem Lease.run_cases (us : List (Mem × Use)) : ∀ {b : Lease}, b.t = true →
    ((∀ a ∈ (b.run us).1, a ≠ .ret none) ∧ (b.run us).2 = []) ∨ b.Returns us := by
  induction us with
  | nil => exact fun _ => .inl ⟨nofun, rfl⟩
  | cons mu us ih =>
      intro b hb
      obtain ⟨mem, u⟩ := mu
      cases huse : b.use mem u with
      | error p =>
          refine .inl ?_
          simp only [Lease.run, huse]
          exact ⟨nofun, trivial⟩
      | ok out =>
          obtain ⟨a, sent, b'⟩ := out
          rcases Lease.use_cases huse with
            ⟨ha, rfl, ht, hi, -⟩ | ⟨rfl, rfl, rfl, -, hspent, hpacket⟩
          · -- The block is still on loan, and the rest of the calls follow.
            rcases ih (ht.trans hb) with ⟨hnone, hwords⟩ | hreturns
            · refine .inl ?_
              simp only [Lease.run, huse]
              exact ⟨List.forall_mem_cons.mpr ⟨ha, hnone⟩, hwords⟩
            · exact .inr (hreturns.cons huse ha hi)
          · obtain ⟨hanswers, hwords⟩ := hspent.run us
            rw [hpacket] at hanswers
            refine .inr ⟨⟨[], mem, us, b, (b'.run us).1, rfl, rfl, ?_, nofun, hanswers⟩, ?_⟩
            · simp only [Lease.run, huse, List.nil_append]
            · simp only [Lease.run, huse, hwords, List.append_nil]

/-- However a Go program uses a block that `Conn.Block` has returned, and whatever the kernel does
to the ring in the meantime: either no `Return` succeeds and nothing is written to the daemon, or
one does and the index is written once. Then every later `Next` and `PacketData` panics, finds no
packet or has no bytes, every later `Return` panics, and `Packet` returns the header pointer that it
returned before. -/
theorem returned_once (i : Nat) (B : Slice) (us : List (Mem × Use)) :
    let b : Lease := ⟨true, i, .fresh B⟩
    ((∀ a ∈ (b.run us).1, a ≠ .ret none) ∧ (b.run us).2 = []) ∨
    ((b.run us).2 = [UInt32.ofNat i] ∧ ∃ before mem after returned answers,
      us = before ++ (mem, .ret none) :: after ∧
      b.after before = .ok returned ∧
      (b.run us).1 = (b.run before).1 ++ .ret none :: answers ∧
      (∀ a ∈ (b.run before).1, a ≠ .ret none) ∧
      ∀ a ∈ answers, a.Blank returned.block.packet) := by
  intro b
  rcases Lease.run_cases us (b := b) rfl with hnone | hreturns
  · exact .inl hnone
  · exact .inr ⟨hreturns.sent, hreturns.split⟩

end Testimony.GoClient
