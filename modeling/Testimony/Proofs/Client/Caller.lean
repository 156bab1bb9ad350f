import Testimony.Client.Caller
import Testimony.Proofs.Client.Block

/-!
# `Testimony.Proofs.Client.Caller`: the client's counts

`Caller.Ok` is what the program and `block_counts` know of each other: the count of a block is
the number of packets the program has not returned, and zero for a block it does not have. As
long as that holds no check of a count fails, and `Caller.Move` lists what is left of each step
(`Caller.Ok.step_cases`). Every move keeps `Caller.Ok` (`Caller.Move.ok`), provided the
server only sends the index of a block the program does not have.
-/

set_option autoImplicit false

namespace Testimony.Client

open Lib Wire

/-- A block the program has nothing to do with. -/
structure Caller.Free (c : Caller) (i : Nat) : Prop where
  lt : i < c.t.conn.blockNr
  held : c.held i = none
  resets : i ∉ c.resets

/-- A program that keeps its own books: the counts of the library are the packets that it has left
of each block, what it holds or resets are blocks of the ring, and a block that it is about to claim
is one that it does not have. -/
structure Caller.Ok (c : Caller) : Prop where
  mapped : c.t.Mapped
  counts : ∀ i, c.t.blockCounts i = ((c.held i).map Hold.left).getD 0
  held_lt : ∀ i h, c.held i = some h → i < c.t.conn.blockNr
  resets : ∀ i ∈ c.resets, i < c.t.conn.blockNr ∧ c.held i = none
  claim : ∀ x, c.getter = .claim x → c.Free x.toNat

/-- The client after `testimony_init`: the ring is mapped and `calloc` has cleared the
counts. -/
theorem Caller.Ok.start {t : T} (h : t.Mapped) (hcounts : ∀ i, t.blockCounts i = 0) :
    (Caller.start t).Ok where
  mapped := h
  counts := hcounts
  held_lt := nofun
  resets := nofun
  claim := nofun

/-- The count of a block that the program holds is the number of packets that are left of it. -/
theorem Caller.Ok.count_held {c : Caller} (h : c.Ok) {i : Nat} {hold : Hold}
    (hi : c.held i = some hold) : c.t.blockCounts i = hold.left := by
  rw [h.counts, hi]
  rfl

/-- The count of a block that the program does not hold is zero. -/
theorem Caller.Ok.count_free {c : Caller} (h : c.Ok) {i : Nat} (hi : c.held i = none) :
    c.t.blockCounts i = 0 := by
  rw [h.counts, hi]
  rfl

/-! ### Moves -/

/-- Let the program go on with a count and a hold of block `i` changed. -/
def Caller.put (c : Caller) (i : Nat) (hold : Option Hold) : Caller :=
  { c with
    t := { c.t with
      blockCounts := Function.update c.t.blockCounts i ((hold.map Hold.left).getD 0) }
    held := Function.update c.held i hold }

/-- Let the program go on with `sock`. -/
def Caller.setSock (c : Caller) (sock : Sock) : Caller := { c with t := { c.t with sock := sock } }

/-- The steps of a program whose counts are right. -/
inductive Caller.Move (c : Caller) : Call → Caller → Prop
  | index {timeout : Int} {polls : List Poll} {x : UInt32} {sock : Sock} (hpc : c.getter = .idle)
      (hread : readIndex c.t timeout polls = .ok (some x) sock) :
      Move c (.read timeout polls) { c.setSock sock with getter := .claim x }
  | noIndex {timeout : Int} {polls : List Poll} {sock : Sock} (hpc : c.getter = .idle)
      (hread : readIndex c.t timeout polls = .ok none sock) :
      Move c (.read timeout polls) (c.setSock sock)
  | readFailed {timeout : Int} {polls : List Poll} {e : Errno} {msg : GetMsg} {sock : Sock}
      (hpc : c.getter = .idle) (hread : readIndex c.t timeout polls = .error (.fail e msg) sock) :
      Move c (.read timeout polls)
        { c.setSock sock with failures := c.failures ++ [.get e msg] }
  | claim {x numPkts : UInt32} (hpc : c.getter = .claim x) :
      Move c (.claim numPkts)
        { c.put x.toNat (some ⟨numPkts, numPkts⟩) with
          getter := .idle
          given := c.given ++ [x] }
  | returnBlock {i : Nat} {h : Hold} (hheld : c.held i = some h) :
      Move c (.returnBlock i) { c.put i none with sends := c.sends ++ [UInt32.ofNat i] }
  | returnSome {i : Nat} {h : Hold} {packets : UInt32} (hheld : c.held i = some h)
      (hp : packets < h.left) :
      Move c (.returnPackets i packets) (c.put i (some { h with left := h.left - packets }))
  | returnLast {i : Nat} {h : Hold} {packets : UInt32} (hheld : c.held i = some h)
      (hp : packets = h.left) :
      Move c (.returnPackets i packets) { c.put i none with resets := c.resets ++ [i] }
  | reset {i : Nat} {numPkts : UInt32} (hi : i ∈ c.resets) :
      Move c (.reset i numPkts)
        { c.put i none with
          resets := c.resets.erase i
          sends := c.sends ++ [UInt32.ofNat i] }
  | sent {x : UInt32} (hx : x ∈ c.sends) :
      Move c (.send x none) { c with sends := c.sends.erase x }
  | sendFailed {x : UInt32} {e : Nat} (hx : x ∈ c.sends) :
      Move c (.send x (some e))
        { c with
          sends := c.sends.erase x
          failures := c.failures ++ [.ret (.sys e) .send] }

/-- Setting a count to what it is changes nothing. -/
theorem Caller.put_eq {c : Caller} {i : Nat} {hold : Option Hold}
    (h : c.held i = hold) : Function.update c.held i hold = c.held := by
  rw [← h, Function.update_eq_self]

/-- With the counts right, no step of the program fails a check. -/
theorem Caller.Ok.step_cases {c c' : Caller} {call : Call} (h : c.Ok)
    (hstep : c.step call = some c') : c.Move call c' := by
  cases call with
  | read timeout polls =>
      simp only [Caller.step] at hstep
      split at hstep
      · rename_i hpc
        split at hstep
        · rename_i hread
          cases hstep
          exact .index hpc hread
        · rename_i hread
          cases hstep
          exact .noIndex hpc hread
        · rename_i hread
          cases hstep
          exact .readFailed hpc hread
        · cases hstep
      · cases hstep
  -- Each of these calls checks a count, and finds the one it should.
  | claim numPkts =>
      simp only [Caller.step] at hstep
      split at hstep
      · cases hstep
      · rename_i x hpc
        have hfree := h.claim x hpc
        rw [claimBlock_ok hfree.lt (h.count_free hfree.held)] at hstep
        cases hstep
        exact .claim hpc
  | returnBlock i =>
      simp only [Caller.step] at hstep
      split at hstep
      · rename_i hold hheld
        split at hstep
        · rename_i hleft
          rw [returnBlock_ok h.mapped (h.held_lt i hold hheld)
            (.inr ((h.count_held hheld).trans hleft))] at hstep
          cases hstep
          exact .returnBlock hheld
        · cases hstep
      · cases hstep
  | returnPackets i packets =>
      simp only [Caller.step] at hstep
      split at hstep
      · rename_i hold hheld
        split at hstep
        · rename_i hp
          have hcount := h.count_held hheld
          rw [returnPackets_ok h.mapped (h.held_lt i hold hheld) (hcount ▸ hp.2), hcount] at hstep
          by_cases hlast : packets = hold.left
          · simp only [hlast, decide_true, if_true, UInt32.sub_self] at hstep
            cases hstep
            exact .returnLast hheld hlast
          · simp only [hlast, decide_false, if_false] at hstep
            cases hstep
            exact .returnSome hheld (UInt32.lt_of_le_of_ne hp.2 hlast)
        · cases hstep
      · cases hstep
  | reset i numPkts =>
      simp only [Caller.step] at hstep
      split at hstep
      · rename_i hi
        obtain ⟨hlt, hheld⟩ := h.resets i hi
        rw [returnBlock_ok h.mapped hlt (.inl (h.count_free hheld))] at hstep
        cases hstep
        have hmove : c.Move (.reset i numPkts) _ := .reset hi
        rw [Caller.put, Caller.put_eq hheld] at hmove
        exact hmove
      · cases hstep
  -- `send` may fail for reasons of its own.
  | send x errno =>
      simp only [Caller.step] at hstep
      split at hstep
      · rename_i hx
        cases hstep
        cases errno with
        | none => exact .sent hx
        | some e => exact .sendFailed hx
      · cases hstep

/-! ### The counts stay right -/

/-- The counts concern neither the socket nor what is sent, and fewer calls in progress do no
harm. -/
theorem Caller.Ok.frame {c c' : Caller} (h : c.Ok) (hconn : c'.t.conn = c.t.conn)
    (hring : c'.t.ring = c.t.ring) (hcounts : c'.t.blockCounts = c.t.blockCounts)
    (hheld : c'.held = c.held) (hresets : ∀ i ∈ c'.resets, i ∈ c.resets)
    (hgetter : c'.getter = c.getter ∨ c'.getter = .idle) : c'.Ok where
  mapped := by
    obtain ⟨h₁, h₂, h₃⟩ := h.mapped
    exact ⟨hconn ▸ h₁, by rw [hconn, hring]; exact h₂, hconn ▸ h₃⟩
  counts := by rw [hcounts, hheld]; exact h.counts
  held_lt := by rw [hheld, hconn]; exact h.held_lt
  resets := by
    intro i hi
    rw [hheld, hconn]
    exact h.resets i (hresets i hi)
  claim := by
    intro x hx
    rcases hgetter with hgetter | hgetter
    · obtain ⟨h₁, h₂, h₃⟩ := h.claim x (hgetter ▸ hx)
      exact ⟨hconn ▸ h₁, hheld ▸ h₂, fun hi => h₃ (hresets _ hi)⟩
    · rw [hgetter] at hx
      cases hx

/-- Changing the count and the hold of a block together keeps them in step. -/
theorem Caller.Ok.put {c : Caller} (h : c.Ok) {i : Nat} (hi : i < c.t.conn.blockNr)
    (hresets : i ∉ c.resets) (hclaim : ∀ x, c.getter = .claim x → x.toNat ≠ i)
    (hold : Option Hold) : (c.put i hold).Ok where
  mapped := ⟨h.mapped.blockSize_pos, h.mapped.fits, h.mapped.blockNr_lt⟩
  counts := by
    intro j
    simp only [Caller.put]
    by_cases hj : j = i
    · subst hj
      rw [Function.update_self, Function.update_self]
    · rw [Function.update_of_ne hj, Function.update_of_ne hj]
      exact h.counts j
  held_lt := by
    intro j hold' hj
    simp only [Caller.put] at hj
    by_cases hji : j = i
    · exact hji ▸ hi
    · rw [Function.update_of_ne hji] at hj
      exact h.held_lt j hold' hj
  -- The block is neither about to be reset nor about to be claimed, so those stay as they are.
  resets := by
    intro j hj
    have hji : j ≠ i := fun heq => hresets (heq ▸ hj)
    simp only [Caller.put]
    rw [Function.update_of_ne hji]
    exact h.resets j hj
  claim := by
    intro x hx
    obtain ⟨hlt, hheld, hreset⟩ := h.claim x hx
    refine ⟨hlt, ?_, hreset⟩
    simp only [Caller.put]
    rwa [Function.update_of_ne (hclaim x hx)]

/-- The block about to be claimed is not one the program has. -/
theorem Caller.Ok.claim_ne {c : Caller} (h : c.Ok) {i : Nat}
    (hi : c.held i ≠ none ∨ i ∈ c.resets) (x : UInt32) (hx : c.getter = .claim x) :
    x.toNat ≠ i := by
  rintro rfl
  rcases hi with hheld | hreset
  · exact hheld (h.claim x hx).held
  · exact (h.claim x hx).resets hreset

/-- Every move keeps the counts right, if an index is only read when its block is free. -/
theorem Caller.Move.ok {c c' : Caller} {call : Call} (hm : c.Move call c') (h : c.Ok)
    (hread : ∀ timeout polls x sock, call = .read timeout polls → c.getter = .idle →
      readIndex c.t timeout polls = .ok (some x) sock → c.Free x.toNat) : c'.Ok := by
  cases hm with
  | index hpc hx =>
      have hfree := hread _ _ _ _ rfl hpc hx
      refine ⟨⟨h.mapped.blockSize_pos, h.mapped.fits, h.mapped.blockNr_lt⟩, h.counts, h.held_lt,
        h.resets, ?_⟩
      rintro x ⟨⟩
      exact ⟨hfree.lt, hfree.held, hfree.resets⟩
  | noIndex hpc hx => exact h.frame rfl rfl rfl rfl (fun _ hi => hi) (.inl rfl)
  | readFailed hpc hx => exact h.frame rfl rfl rfl rfl (fun _ hi => hi) (.inl rfl)
  | @claim x numPkts hpc =>
      have hfree := h.claim x hpc
      -- The getter gives its block away, so nothing is claimed any more.
      have hidle : { c with getter := .idle : Caller }.Ok :=
        h.frame rfl rfl rfl rfl (fun _ hi => hi) (.inr rfl)
      exact (hidle.put hfree.lt hfree.resets nofun (some ⟨numPkts, numPkts⟩)).frame
        rfl rfl rfl rfl (fun _ hi => hi) (.inr rfl)
  | @returnBlock i hold hheld =>
      have hne : c.held i ≠ none := by simp [hheld]
      exact (h.put (h.held_lt i hold hheld) (fun hi => hne (h.resets i hi).2)
        (h.claim_ne (.inl hne)) none).frame rfl rfl rfl rfl (fun _ hi => hi) (.inl rfl)
  | @returnSome i hold packets hheld hp =>
      have hne : c.held i ≠ none := by simp [hheld]
      exact h.put (h.held_lt i hold hheld) (fun hi => hne (h.resets i hi).2)
        (h.claim_ne (.inl hne)) _
  | @returnLast i hold packets hheld hp =>
      have hne : c.held i ≠ none := by simp [hheld]
      have hput := h.put (h.held_lt i hold hheld) (fun hi => hne (h.resets i hi).2)
        (h.claim_ne (.inl hne)) none
      refine ⟨hput.mapped, hput.counts, hput.held_lt, ?_, ?_⟩
      · intro j hj
        rcases List.mem_append.mp hj with hj | hj
        · exact hput.resets j hj
        · obtain rfl := List.mem_singleton.mp hj
          exact ⟨h.held_lt j hold hheld, Function.update_self ..⟩
      · intro x hx
        obtain ⟨hlt, hheld', hreset⟩ := hput.claim x hx
        refine ⟨hlt, hheld', fun hmem => ?_⟩
        rcases List.mem_append.mp hmem with hmem | hmem
        · exact hreset hmem
        · exact h.claim_ne (.inl hne) x hx (List.mem_singleton.mp hmem)
  | @reset i numPkts hi =>
      obtain ⟨-, hheld⟩ := h.resets i hi
      refine h.frame rfl rfl ?_ (Caller.put_eq hheld) (fun _ hj => List.mem_of_mem_erase hj)
        (.inl rfl)
      -- The count was zero already.
      exact (congrArg (Function.update c.t.blockCounts i) (h.count_free hheld).symm).trans
        (Function.update_eq_self i c.t.blockCounts)
  | sent hx => exact h.frame rfl rfl rfl rfl (fun _ hi => hi) (.inl rfl)
  | sendFailed hx => exact h.frame rfl rfl rfl rfl (fun _ hi => hi) (.inl rfl)

end Testimony.Client
