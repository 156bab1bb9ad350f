import Testimony.GoSession
import Testimony.Proofs.EndToEnd
import Testimony.Proofs.GoClient.Program
import Testimony.Proofs.Ring

/-!
# `Testimony.Proofs.GoSession`: a Go program as a C program

To the daemon a Go program looks like a C program that gets a block, does not touch its packets
and returns it whole. `Sim` relates the two: the daemon and the two directions of the connection
are the same, and each block that the Go program has on loan is one that the C program has. Every
step of the Go session is answered by steps of the C session, most of them by none
(`exists_session`).

So the Go client inherits what is known of the C client, and for more programs: a C program has to
return its blocks as it should, while a Go program may do what it likes, since a second `Return`
panics before it writes anything.
-/

set_option autoImplicit false

namespace Testimony.GoClient

open Lib Lib.BigEndian Source Wire

/-! ### `Conn.Block` on a stream of indexes -/

/-- An index below `NumBlocks` is read as it was written. -/
theorem reads_block {t : Conn} {x : UInt32} (hx : x.toNat < 2 ^ 31)
    (hlt : (x.toNat : Int) < t.numBlocks) : Reads t.block (putUint32 x) x.toNat := by
  have hloop : Reads (get >>= fun segs => indexLoop ((pending segs).length + 1)) (putUint32 x)
      x.toNat := by
    refine Reads.fueled indexLoop fun rounds hrounds => ?_
    obtain ⟨rounds, rfl⟩ := Nat.exists_eq_succ_of_ne_zero (Nat.ne_of_gt (Nat.zero_lt_of_lt hrounds))
    exact reads_indexLoop_block hx rounds
  rw [block_eq]
  refine hloop.bind_pure ?_
  rw [if_neg (Int.not_le.mpr hlt)]

/-- Less than an index is an error, or something to wait for. -/
theorem block_of_short (t : Conn) {segs : List Seg} (h : (pending segs).length < 4) :
    ∃ e segs', t.block segs = .error e segs' ∧ (ending segs = .blocked → e = .blocked) ∧
      (∀ msg, e = .fail msg → ∃ err, msg = .readingIndex err) ∧
      pending segs' = [] ∧ ending segs' = ending segs := by
  obtain ⟨e, segs', hread, he, hpending, hending⟩ := readLoop_short 4 4 [] segs (Nat.le_refl 4) h
  have hwrap : ∀ e', wrap .readingIndex (readFull 4) segs = .error e' segs' →
      t.block segs = .error e' segs' := by
    intro e' hw
    have hloop : indexLoop ((pending segs).length + 1) segs = .error e' segs' := by
      rw [indexLoop_succ, bind_error hw]
    have hget : (get >>= fun segs => indexLoop ((pending segs).length + 1)) segs =
        .error e' segs' := hloop
    rw [block_eq, bind_error hget]
  cases e with
  | fail err =>
      refine ⟨.fail (.readingIndex err), segs', hwrap _ (by rw [wrap, readFull, hread]),
        fun hb => ?_, ?_, hpending, hending⟩
      · have hblocked := he.mpr hb
        cases hblocked
      · rintro msg ⟨⟩
        exact ⟨err, rfl⟩
  | blocked =>
      exact ⟨.blocked, segs', hwrap _ (by rw [wrap, readFull, hread]), fun _ => rfl,
        by rintro msg ⟨⟩, hpending, hending⟩

/-- `Conn.Block` on a stream of indexes: it returns the first of them if it is there, and has
read what there is if it is not. -/
theorem block_cases {t : Conn} {is : List UInt32} (his : ∀ x ∈ is, x.toNat < 2 ^ 31)
    (hlt : ∀ x ∈ is, (x.toNat : Int) < t.numBlocks) {segs : List Seg}
    (hle : pending segs <+: encodeIndexes is) :
    (∃ x js segs', is = x :: js ∧ t.block segs = .ok x.toNat segs' ∧
      pending segs = putUint32 x ++ pending segs' ∧ ending segs' = ending segs) ∨
    ∃ e segs', t.block segs = .error e segs' ∧ (ending segs = .blocked → e = .blocked) ∧
      (∀ msg, e = .fail msg → ∃ err, msg = .readingIndex err) ∧
      pending segs' = [] ∧ ending segs' = ending segs := by
  by_cases hlen : (pending segs).length < 4
  · exact .inr (block_of_short t hlen)
  · cases is with
    | nil =>
        rw [List.prefix_nil.mp hle] at hlen
        exact absurd (by decide) hlen
    | cons x js =>
        have hcons : encodeIndexes (x :: js) = putUint32 x ++ encodeIndexes js := List.flatMap_cons
        rw [hcons] at hle
        obtain ⟨rest, hrest⟩ : putUint32 x <+: pending segs :=
          List.prefix_of_prefix_length_le (List.prefix_append _ _) hle
            (by rw [length_putUint32]; omega)
        obtain ⟨segs', hblock, hpending, hending⟩ :=
          reads_block (his x (List.mem_cons_self ..)) (hlt x (List.mem_cons_self ..)) segs rest
            hrest.symm
        exact .inl ⟨x, js, segs', rfl, hblock, by rw [← hrest, hpending], hending⟩

end Testimony.GoClient

namespace Testimony.Client

open Lib Lib.BigEndian Source Wire

/-! ### What the C program does instead -/

/-- With the counts right, the program takes the block whose index it has read. -/
theorem Caller.Ok.step_claim {c : Caller} (h : c.Ok) {x : UInt32} (hpc : c.getter = .claim x)
    (numPkts : UInt32) : c.step (.claim numPkts) =
      some { c.put x.toNat (some ⟨numPkts, numPkts⟩) with
        getter := .idle
        given := c.given ++ [x] } := by
  have hfree := h.claim x hpc
  simp only [Caller.step, hpc]
  rw [claimBlock_ok hfree.lt (h.count_free hfree.held)]
  rfl

/-- And returns it whole. -/
theorem Caller.Ok.step_returnBlock {c : Caller} (h : c.Ok) {i : Nat} {hold : Hold}
    (hheld : c.held i = some hold) (hleft : hold.left = hold.numPkts) :
    c.step (.returnBlock i) = some { c.put i none with sends := c.sends ++ [UInt32.ofNat i] } := by
  simp only [Caller.step, hheld, hleft, if_true]
  rw [returnBlock_ok h.mapped (h.held_lt i hold hheld)
    (.inr ((h.count_held hheld).trans hleft))]
  rfl

end Testimony.Client

namespace Testimony.GoClient

/-! ### Blocks on loan -/

/-- The program's block number `j` is block `i` of the ring, and not returned yet. -/
def OnLoan (leases : List Lease) (j i : Nat) : Prop :=
  ∃ b, leases[j]? = some b ∧ b.t = true ∧ b.i = i

variable {leases : List Lease} {b b' : Lease} {i j i' j' : Nat}

/-- A new lease is on loan unless it is returned, and it changes nothing for the others. -/
theorem onLoan_append : OnLoan (leases ++ [b]) j' i' ↔
    OnLoan leases j' i' ∨ j' = leases.length ∧ b.t = true ∧ b.i = i' := by
  unfold OnLoan
  rcases Nat.lt_trichotomy j' leases.length with hlt | rfl | hgt
  · rw [List.getElem?_append_left hlt]
    simp [Nat.ne_of_lt hlt]
  · simp
  · have hnone : leases[j']? = none := List.getElem?_eq_none (Nat.le_of_lt hgt)
    have hnone' : (leases ++ [b])[j']? = none := List.getElem?_eq_none (by simp; omega)
    simp [hnone, hnone', Nat.ne_of_gt hgt]

/-- A block changes into `b'`. -/
theorem onLoan_set (hj : leases[j]? = some b) : OnLoan (leases.set j b') j' i' ↔
    j' ≠ j ∧ OnLoan leases j' i' ∨ j' = j ∧ b'.t = true ∧ b'.i = i' := by
  unfold OnLoan
  have hlt : j < leases.length := (List.getElem?_eq_some_iff.mp hj).1
  by_cases h : j' = j
  · subst h
    simp [List.getElem?_set_self hlt]
  · simp [List.getElem?_set_ne (Ne.symm h), h]

end Testimony.GoClient

namespace Testimony.GoSession

open Lib Lib.BigEndian Source GoClient Daemon Wire

variable {k : Conf} {c : ConnId} {t : Ready} {g g' : State k} {s : Session.State k}

/-! ### The relation -/

/-- The two clients have the same to read. In front of an end the Go client may have read part of
an index. -/
def Alike (segs : List Seg) (sock : Client.Sock) : Prop :=
  Seg.ending segs = ending sock ∧
    (Seg.pending segs = pending sock ∨ Seg.ending segs ≠ .blocked ∧ Seg.pending segs = [])

/-- The two clients see the same bytes arrive. -/
theorem Alike.push {segs : List Seg} {sock : Client.Sock} (h : Alike segs sock)
    (more : List Seg) : Alike (segs ++ more) (sock.push more) := by
  obtain ⟨hending, hpending⟩ := h
  unfold Alike
  rw [Seg.pending_append, Seg.ending_append, Client.Sock.pending_push, Client.Sock.ending_push]
  rcases hpending with hpending | ⟨hopen, hnone⟩
  · rw [hending, hpending]
    exact ⟨rfl, .inl rfl⟩
  · rw [if_neg hopen, if_neg hopen, if_neg (hending ▸ hopen)]
    exact ⟨hending, .inr ⟨hopen, hnone⟩⟩

/-- The C session `s` looks to the daemon like the Go session `g`. -/
structure Sim (t : Ready) (g : State k) (s : Session.State k) : Prop where
  daemon : s.daemon = g.daemon
  net : s.net = g.net
  back : s.back = g.back
  ready : g.program.t = t
  sockFd_ne : s.caller.t.sockFd ≠ 0
  ring_ne : s.caller.t.ring ≠ 0
  getter : s.caller.getter = .idle
  sends : s.caller.sends = []
  given : g.program.given = s.caller.given.map UInt32.toNat
  failures : ∀ f ∈ g.program.failures, ∃ err, f = .readingIndex err
  -- A block on loan is one that the C program has as a whole.
  leased : ∀ j i, OnLoan g.program.leases j i →
    ∃ hold, s.caller.held i = some hold ∧ hold.left = hold.numPkts
  distinct : ∀ j j' i, OnLoan g.program.leases j i → OnLoan g.program.leases j' i → j = j'
  stream : g.program.panicked = false → Alike g.program.segs s.caller.t.sock

/-- The C client that stands for the Go client. -/
def counterpart (k : Conf) : Client.T := .onRing k.numBlocks []

/-- At the start the two programs have nothing. -/
theorem sim_init (k : Conf) (c : ConnId) (t : Ready) :
    Sim t (system k c t).init (Session.system k c (counterpart k)).init where
  daemon := rfl
  net := rfl
  back := rfl
  ready := rfl
  sockFd_ne := show 3 ≠ 0 by decide
  ring_ne := show 4096 ≠ 0 by decide
  getter := rfl
  sends := rfl
  given := rfl
  failures := nofun
  leased := by
    rintro j i ⟨b, hb, -⟩
    cases hb
  distinct := by
    rintro j j' i ⟨b, hb, -⟩
    cases hb
  stream _ := ⟨rfl, .inl rfl⟩

/-- A guard of the daemon's steps. -/
def Guarded (P : Daemon.State k → Daemon.Label k → Prop) (g : State k) : Label k → Prop
  | .daemon l => P g.daemon l
  | _ => True

/-- A condition on the daemon's steps that can be decided can be decided of the steps here. -/
instance (P : Daemon.State k → Daemon.Label k → Prop) [∀ d l, Decidable (P d l)] (g : State k)
    (l : Label k) : Decidable (Guarded P g l) := by
  unfold Guarded
  split <;> infer_instance

/-! ### The steps -/

/-- The C session gets from `s` to `s'`. -/
def Answers (P : Daemon.State k → Daemon.Label k → Prop) (c : ConnId) (s s' : Session.State k) :
    Prop :=
  ((Session.system k c (counterpart k)).startAt s).ReachableBy (Session.Guarded P) s'

variable {P : Daemon.State k → Daemon.Label k → Prop}

/-- More to read for both. -/
theorem Sim.push (h : Sim t g s) (segs : List Seg) (net : List UInt8) :
    Sim t { g.push segs with net := net } { s.push segs with net := net } :=
  { h with
      net := rfl
      stream := fun hpanic => (h.stream hpanic).push segs }

/-- What the program does is of no interest to the daemon. -/
theorem Sim.program (h : Sim t g s) {p : Program} (ht : p.t = g.program.t)
    (hgiven : p.given = g.program.given)
    (hfailures : ∀ f ∈ p.failures, ∃ err, f = .readingIndex err)
    (hloans : ∀ j i, OnLoan p.leases j i → OnLoan g.program.leases j i)
    (hstream : p.panicked = false → Alike p.segs s.caller.t.sock) :
    Sim t { g with program := p, back := g.back ++ [] } s :=
  { h with
      back := by rw [List.append_nil]; exact h.back
      ready := ht.trans h.ready
      given := hgiven.trans h.given
      failures := hfailures
      leased := fun j i hi => h.leased j i (hloans j i hi)
      distinct := fun j j' i hi hi' => h.distinct j j' i (hloans j i hi) (hloans j' i hi')
      stream := hstream }

/-- The C program gets the block that the Go program gets. -/
theorem Sim.get (h : Sim t g s) (hinv : Session.Inv c s) (hk : k.numBlocks < 2 ^ 31)
    {x : UInt32} {js : List UInt32} (hwords : Session.words c s = s.caller.seen ++ x :: js)
    (hunread : x.toNat ∈ Session.unread c s)
    (hle : pending s.caller.t.sock <+: encodeIndexes (x :: js)) {segs : List Seg}
    (hsegs : pending s.caller.t.sock = putUint32 x ++ Seg.pending segs)
    (hending : Seg.ending segs = ending s.caller.t.sock) (block : GoClient.Block) :
    ∃ s', Answers P c s s' ∧
      Sim t { g with
        program := { g.program with
          segs := segs
          leases := g.program.leases ++ [⟨true, x.toNat, block⟩]
          given := g.program.given ++ [x.toNat] }
        back := g.back ++ [] } s' := by
  have hlen : 4 ≤ (pending s.caller.t.sock).length := by
    rw [hsegs, List.length_append, length_putUint32]
    omega
  have hlt : ∀ y ∈ x :: js, y.toNat < 2 ^ 31 := fun y hy =>
    Session.Inv.lt_of_mem_words (c := c) (s := s) hk
      (by rw [hwords]; exact List.mem_append_right _ hy)
  obtain ⟨sock, hread, hsock, hsockEnd⟩ :=
    Client.readIndex_ok h.sockFd_ne h.ring_ne hlt hle hlen
  have hfree := hinv.free hunread
  -- The two calls of the C program.
  have hstep₁ : Session.step c s (.call (.read (-1) [])) =
      some { s with
        caller := { s.caller.setSock sock with getter := .claim x }
        back := s.back ++ [] } := by
    simp only [Session.step, Client.Caller.step, h.getter, hread]
    rfl
  have hstep₂ : Session.step c
      { s with caller := { s.caller.setSock sock with getter := .claim x }, back := s.back ++ [] }
      (.call (.claim 1)) =
      some { s with
        caller := { (s.caller.setSock sock).put x.toNat (some ⟨1, 1⟩) with
          getter := .idle
          given := s.caller.given ++ [x] }
        back := s.back ++ [] ++ [] } := by
    simp only [Session.step, (hinv.step hk hstep₁).ok.step_claim (x := x) rfl 1]
    rfl
  refine ⟨_, .step (.one (e := .call (.read (-1) [])) trivial hstep₁)
    (e := .call (.claim 1)) trivial hstep₂, ?_⟩
  refine { h with
    back := by simp [h.back]
    getter := rfl
    given := by simp [h.given]
    leased := ?_
    distinct := ?_
    stream := ?_ }
  · intro j i hi
    rcases onLoan_append.mp hi with hi | ⟨-, -, rfl⟩
    · obtain ⟨hold, hheld, hleft⟩ := h.leased j i hi
      have hne : i ≠ x.toNat := by
        rintro rfl
        rw [hfree.held] at hheld
        cases hheld
      refine ⟨hold, ?_, hleft⟩
      show Function.update s.caller.held x.toNat _ i = some hold
      rw [Function.update_of_ne hne, hheld]
    · exact ⟨⟨1, 1⟩, Function.update_self .., rfl⟩
  · -- The block was not on loan.
    have hnew : ∀ j, ¬ OnLoan g.program.leases j x.toNat := by
      intro j hi
      obtain ⟨hold, hheld, -⟩ := h.leased j _ hi
      rw [hfree.held] at hheld
      cases hheld
    intro j j' i hi hi'
    rcases onLoan_append.mp hi with hi | ⟨hj, -, rfl⟩
    · rcases onLoan_append.mp hi' with hi' | ⟨-, -, rfl⟩
      · exact h.distinct j j' i hi hi'
      · exact absurd hi (hnew j)
    · rcases onLoan_append.mp hi' with hi' | ⟨hj', -, -⟩
      · exact absurd hi' (hnew j')
      · exact hj.trans hj'.symm
  · intro _
    refine ⟨hending.trans hsockEnd.symm, .inl ?_⟩
    exact List.append_cancel_left (hsegs.symm.trans hsock)

/-- The C program returns the block that the Go program returns. -/
theorem Sim.ret (h : Sim t g s) (hinv : Session.Inv c s) {j : Nat} {b b' : Lease}
    (hj : g.program.leases[j]? = some b) (hb : b.t = true) (hb' : b'.t = false) :
    ∃ s', Answers P c s s' ∧
      Sim t { g with
        program := { g.program with leases := g.program.leases.set j b' }
        back := g.back ++ [UInt32.ofNat b.i] } s' := by
  have hloan : OnLoan g.program.leases j b.i := ⟨b, hj, hb, rfl⟩
  obtain ⟨hold, hheld, hleft⟩ := h.leased j b.i hloan
  have hstep₁ : Session.step c s (.call (.returnBlock b.i)) =
      some { s with
        caller := { s.caller.put b.i none with sends := [UInt32.ofNat b.i] }
        back := s.back ++ [] } := by
    simp only [Session.step, hinv.ok.step_returnBlock hheld hleft, h.sends]
    rfl
  have hstep₂ : Session.step c
      { s with
        caller := { s.caller.put b.i none with sends := [UInt32.ofNat b.i] }
        back := s.back ++ [] } (.call (.send (UInt32.ofNat b.i) none)) =
      some { s with
        caller := { s.caller.put b.i none with sends := [] }
        back := s.back ++ [] ++ [UInt32.ofNat b.i] } := by
    simp [Session.step, Client.Caller.step, Session.outgoing]
  refine ⟨_, .step (.one (e := .call (.returnBlock b.i)) trivial hstep₁)
    (e := .call (.send (UInt32.ofNat b.i) none)) trivial hstep₂, ?_⟩
  -- The others are still on loan, and they are other blocks.
  have hloans : ∀ j' i, OnLoan (g.program.leases.set j b') j' i →
      OnLoan g.program.leases j' i ∧ j' ≠ j := by
    intro j' i hi
    rcases (onLoan_set hj).mp hi with ⟨hne, hi⟩ | ⟨-, htrue, -⟩
    · exact ⟨hi, hne⟩
    · rw [hb'] at htrue
      cases htrue
  refine { h with
    back := by simp [h.back]
    sends := rfl
    leased := ?_
    distinct := fun j' j'' i hi hi' => h.distinct j' j'' i (hloans j' i hi).1 (hloans j'' i hi').1
    stream := h.stream }
  intro j' i hi
  obtain ⟨hi, hne⟩ := hloans j' i hi
  obtain ⟨hold', hheld', hleft'⟩ := h.leased j' i hi
  have hother : i ≠ b.i := by
    rintro rfl
    exact hne (h.distinct j' j b.i hi hloan)
  refine ⟨hold', ?_, hleft'⟩
  show Function.update s.caller.held b.i none i = some hold'
  rw [Function.update_of_ne hother, hheld']

/-- A call of `Conn.Block`. -/
theorem Sim.block (h : Sim t g s) (hinv : Session.Inv c s) (hk : k.numBlocks < 2 ^ 31)
    (hnr : t.numBlocks = k.numBlocks) (hp : g.program.panicked = false) {p : Program}
    {sent : List UInt32} (hstep : g.program.step .block = some (p, sent)) :
    ∃ s', Answers P c s s' ∧ Sim t { g with program := p, back := g.back ++ sent } s' := by
  obtain ⟨js, hwords, hunread, hle⟩ := hinv.rest hk
  obtain ⟨hending, hpending⟩ := h.stream hp
  have hle' : Seg.pending g.program.segs <+: encodeIndexes js := by
    rcases hpending with heq | ⟨-, hnil⟩
    · rwa [heq]
    · rw [hnil]
      exact List.nil_prefix
  have hmem : ∀ x ∈ js, x ∈ Session.words c s := fun x hx => by
    rw [hwords]
    exact List.mem_append_right _ hx
  have hlt : ∀ x ∈ js, (x.toNat : Int) < g.program.t.numBlocks := by
    intro x hx
    obtain ⟨b, -, rfl⟩ := List.mem_map.mp (hmem x hx)
    rw [h.ready, hnr, UInt32.toNat_ofNat_of_lt' (Nat.lt_trans b.isLt (Nat.lt_trans hk (by decide)))]
    exact Int.ofNat_lt.mpr b.isLt
  unfold Program.step at hstep
  rw [if_neg (by simp [hp])] at hstep
  rcases block_cases (fun x hx => Session.Inv.lt_of_mem_words hk (hmem x hx)) hlt hle' with
    ⟨x, js, segs, rfl, hblock, hsegs, hend⟩ | ⟨e, segs, hblock, hopen, hmsg, hnil, hend⟩
  · obtain ⟨res, hres, hi⟩ := block_of_index hblock
    simp only [hres] at hstep
    cases res with
    | none =>
        cases hstep
        exact ⟨s, .refl s, h.program rfl rfl h.failures (fun _ _ hi => hi) nofun⟩
    | some b =>
        cases hstep
        rw [hi b rfl]
        have hsock : Seg.pending g.program.segs = pending s.caller.t.sock := by
          rcases hpending with heq | ⟨-, hnil⟩
          · exact heq
          · exact absurd (hsegs.symm.trans hnil) (by simp [putUint32])
        exact h.get hinv hk hwords (by rw [← hunread]; simp) hle (hsock.symm.trans hsegs)
          (Eq.trans hend hending) _
  · have hres : g.program.t.block g.program.segs = .error e segs := bind_error hblock
    simp only [hres] at hstep
    cases e with
    | blocked => cases hstep
    | fail msg =>
        cases hstep
        refine ⟨s, .refl s, h.program rfl rfl ?_ (fun _ _ hi => hi) fun _ => ?_⟩
        · intro f hf
          rcases List.mem_append.mp hf with hf | hf
          · exact h.failures f hf
          · exact List.mem_singleton.mp hf ▸ hmsg msg rfl
        · refine ⟨Eq.trans hend hending, .inr ⟨fun hb => ?_, hnil⟩⟩
          cases hopen (hend.symm.trans hb)

/-- A call on a block. -/
theorem Sim.use (h : Sim t g s) (hinv : Session.Inv c s) (hp : g.program.panicked = false)
    {j : Nat} {mem : Tpacket.Mem} {u : Use} {p : Program} {sent : List UInt32}
    (hstep : g.program.step (.use j mem u) = some (p, sent)) :
    ∃ s', Answers P c s s' ∧ Sim t { g with program := p, back := g.back ++ sent } s' := by
  unfold Program.step at hstep
  rw [if_neg (by simp [hp])] at hstep
  cases hj : g.program.leases[j]? with
  | none => simp [hj] at hstep
  | some b =>
      simp only [hj] at hstep
      split at hstep
      · rename_i a sent' b' huse
        cases hstep
        rcases Lease.use_cases huse with ⟨-, rfl, ht, hi, -⟩ | ⟨-, -, rfl, ht, hspent, -⟩
        · refine ⟨s, .refl s, h.program rfl rfl h.failures (fun j' i hloan => ?_) h.stream⟩
          rcases (onLoan_set hj).mp hloan with ⟨-, hloan⟩ | ⟨rfl, ht', rfl⟩
          · exact hloan
          · exact ⟨b, hj, ht.symm.trans ht', hi.symm⟩
        · exact h.ret hinv hj ht hspent.t_eq
      · cases hstep
        exact ⟨s, .refl s, h.program rfl rfl h.failures (fun _ _ hi => hi) nofun⟩

/-- Every step of the Go session has its answer. -/
theorem Sim.step (h : Sim t g s) (hinv : Session.Inv c s) (hk : k.numBlocks < 2 ^ 31)
    (hnr : t.numBlocks = k.numBlocks) {l : Label k} (hl : Guarded P g l)
    (hstep : step c g l = some g') : ∃ s', Answers P c s s' ∧ Sim t g' s' := by
  cases l with
  | daemon l =>
      simp only [GoSession.step] at hstep
      split at hstep
      · cases hstep
      · rename_i hfrom
        obtain ⟨d, hd, rfl⟩ := Option.map_eq_some_iff.mp hstep
        have hstep' : Session.step c s (.daemon l) = some (s.setDaemon c d) := by
          simp only [Session.step, h.daemon, hd, if_neg hfrom]
          rfl
        have hl' : P s.daemon l := h.daemon ▸ hl
        refine ⟨_, .one (e := .daemon l) hl' hstep', ?_⟩
        exact { h with
          daemon := rfl
          net := by simp [Session.State.setDaemon, State.setDaemon, h.net, h.daemon] }
  | deliver =>
      simp only [GoSession.step] at hstep
      split at hstep
      · cases hstep
      · rename_i w ws hback
        split at hstep
        · rename_i hpc
          obtain ⟨d, hd, rfl⟩ := Option.map_eq_some_iff.mp hstep
          have hstep' : Session.step c s .deliver = some { s with daemon := d, back := ws } := by
            simp only [Session.step, h.back, hback, h.daemon, hpc, hd, if_true]
            rfl
          exact ⟨_, .one (e := .deliver) trivial hstep', { h with daemon := rfl, back := rfl }⟩
        · cases hstep
  | arrive n =>
      simp only [GoSession.step] at hstep
      split at hstep
      · rename_i hn
        cases hstep
        have hstep' : Session.step c s (.arrive n) =
            some { s.push (Seg.unread (g.net.take n) []) with net := g.net.drop n } := by
          simp only [Session.step, h.net, if_pos hn]
        exact ⟨_, .one (e := .arrive n) trivial hstep', h.push _ _⟩
      · cases hstep
  | stop seg =>
      simp only [GoSession.step] at hstep
      split at hstep
      · rename_i hseg
        cases hstep
        have hstep' : Session.step c s (.stop seg) = some (s.push [seg]) := by
          simp only [Session.step, if_pos hseg]
        have hpush := h.push [seg] g.net
        exact ⟨_, .one (e := .stop seg) trivial hstep', { hpush with net := h.net }⟩
      · cases hstep
  | call call =>
      obtain ⟨⟨p, sent⟩, hcall, rfl⟩ := Option.map_eq_some_iff.mp hstep
      have hp : g.program.panicked = false := by
        cases hp : g.program.panicked with
        | false => rfl
        | true => simp [Program.step, hp] at hcall
      cases call with
      | block => exact h.block hinv hk hnr hp hcall
      | use j mem u => exact h.use hinv hp hcall

/-- Every run of the Go session has its counterpart. -/
theorem exists_session (hk : k.numBlocks < 2 ^ 31) (hnr : t.numBlocks = k.numBlocks)
    (h : (system k c t).ReachableBy (Guarded P) g) :
    ∃ s, (Session.system k c (counterpart k)).ReachableBy (Session.Guarded P) s ∧ Session.Inv c s ∧
      Sim t g s := by
  have hinit : (counterpart k).Initiated k.numBlocks :=
    Client.T.initiated_onRing (Nat.lt_trans hk (by decide)) []
  have hinv : ∀ s, (Session.system k c (counterpart k)).ReachableBy (Session.Guarded P) s →
      Session.Inv c s := fun s hs => Session.inv_of_initiated hk hinit rfl hs.reachable
  obtain ⟨s, hs, hsim⟩ := System.ReachableBy.simulates (sim_init k c t)
    (fun g l g' s hs hsim hl hstep => hsim.step (hinv s hs) hk hnr hl hstep) h
  exact ⟨s, hs, hinv s hs, hsim⟩

/-! ### What the Go client inherits -/

/-- A step at which the daemon would find an invalid index in the stream, or a return of a
block that is not outstanding. -/
def Rejects (c : ConnId) (g : State k) : Label k → Prop
  | .deliver => ∃ w ws i, g.back = w :: ws ∧ classify k.numBlocks w = .invalid i
  | .daemon (.conn d .oldBlock) => d = c ∧ (g.daemon.conn c).pc = .select ∧
      ∃ i q, (g.daemon.conn c).oldBlocks.recv = .got (i + 1) q ∧
        ∀ h : i < k.numBlocks, (g.daemon.conn c).outstanding ⟨i, h⟩ = false
  | _ => False

/-- The daemon finds nothing wrong with what the Go program sends, as it finds nothing wrong with
what the C program sends. -/
theorem Sim.not_rejects (h : Sim t g s) (hinv : Session.Inv c s) (hk : k.numBlocks < 2 ^ 31)
    (l : Label k) : ¬ Rejects c g l := by
  intro hl
  unfold Rejects at hl
  split at hl
  · rw [← h.back] at hl
    exact hinv.not_rejects hk .deliver hl
  · rename_i d
    rw [← h.daemon] at hl
    exact hinv.not_rejects hk (.daemon (.conn d .oldBlock)) hl
  · exact hl

/-- Whatever a Go program does with its blocks, as long as it makes one call after the other and
does not copy a `Block`, the daemon never finds an invalid index in what it sends, nor a return of a
block that is not outstanding, and its `handleReads` never waits for `conn.run`. `Conn.Block` fails
only when the connection does. -/
theorem any_program_accepted (hk : k.numBlocks < 2 ^ 31) (hnr : t.numBlocks = k.numBlocks)
    (h : (system k c t).Reachable g) :
    (∀ f ∈ g.program.failures, ∃ err, f = .readingIndex err) ∧ (∀ l, ¬ Rejects c g l) ∧
    ∀ v, (g.daemon.conn c).reads = .post v → (g.daemon.conn c).oldBlocks.send v ≠ .full := by
  have hguard : (system k c t).ReachableBy (Guarded fun _ _ => True) g :=
    h.mono fun _ l _ => by cases l <;> trivial
  obtain ⟨s, -, hinv, hsim⟩ := exists_session hk hnr hguard
  refine ⟨hsim.failures, hsim.not_rejects hinv hk, fun v hpc => ?_⟩
  rw [← hsim.daemon] at hpc ⊢
  exact hinv.send_ne_full hpc

/-- A client on a ring of two blocks. -/
def twoBlocks : Ready where
  numBlocks := 2
  blockSize := 4096
  fanoutSize := 1
  fd := 5
  ring := ⟨fun _ => 0, 8192, 8192, Nat.le_refl _⟩

/-- A client joins, and the index of block `b` is written to it. -/
def firstRun (b : k.Index) : List (Label k) :=
  (.run .newConn :: deliverRun b 0).map .daemon

/-- `socket.run` gives up the block that it has, and the index of block `b` is written to the
client. -/
def secondRun (b : k.Index) : List (Label k) :=
  (.run .go :: .run .go :: deliverRun b 0).map .daemon

/-- A program that returns its block twice. The second `Return` panics, and the daemon takes the
first. -/
theorem any_program_accepted_twice : ∃ g : State ⟨2, by decide⟩,
    (system ⟨2, by decide⟩ 0 twoBlocks).Reachable g ∧ g.program.given = [0] ∧
    g.program.panicked = true ∧ g.program.failures = [.readingIndex .unexpectedEOF] ∧
    (g.daemon.conn 0).pc = .unref 0 .select ∧ ∀ l, ¬ Rejects 0 g l := by
  have hrun : (((system ⟨2, by decide⟩ 0 twoBlocks).exec (system ⟨2, by decide⟩ 0 twoBlocks).init
      (firstRun 0 ++ [.arrive 4, .call .block, .call (.use 0 (fun _ => 0) .next)] ++ secondRun 1 ++
        [.arrive 2, .stop .eof, .call .block, .call (.use 0 (fun _ => 0) (.ret none)),
          .call (.use 0 (fun _ => 0) (.ret none)), .deliver, .daemon (.reads 0 .eof),
          .daemon (.conn 0 .oldBlock)])).map fun g =>
      (g.program.given, g.program.panicked, g.program.failures, (g.daemon.conn 0).pc)) =
      some ([0], true, [.readingIndex .unexpectedEOF], .unref 0 .select) := by decide +kernel
  obtain ⟨g, hexec, heq⟩ := Option.map_eq_some_iff.mp hrun
  simp only [Prod.mk.injEq] at heq
  have hreach := System.reachable_of_exec hexec
  exact ⟨g, hreach, heq.1, heq.2.1, heq.2.2.1, heq.2.2.2,
    (any_program_accepted (by decide) rfl hreach).2.1⟩

/-- In a run without a stale load a Go program gets the same blocks as a C program: those that
`socket.run` takes from the registration of its connection on, in order, with none left out and
none twice for one fill. While a block is on loan the kernel cannot write to it, unless `conn.run`
has dropped it in its last loop. -/
theorem loans_stable (hk : k.numBlocks < 2 ^ 31) (hnr : t.numBlocks = k.numBlocks)
    (h : (system k c t).ReachableBy (Guarded NoStaleLoad) g) :
    (∀ j, (takesSince c g.daemon.log).head? = some j →
      g.program.given = (List.range g.program.given.length).map
        fun i => (j.val + i) % k.numBlocks) ∧
    (∀ b : k.Index, g.program.given.count b.val ≤ (fills g.daemon.log).count b) ∧
    ∀ j i, OnLoan g.program.leases j i → ∃ b : k.Index, b.val = i ∧
      ((g.daemon.conn c).pc.unswept b = true →
        g.daemon.blockStatus b ≠ 0 ∧ 0 < g.daemon.r b ∧
          ∀ v, step c g (.daemon (.fill b v)) = none) := by
  obtain ⟨s, hs, hinv, hsim⟩ := exists_session hk hnr h
  have hdaemon := Session.daemon_of_guarded (fun _ _ => trivial) hs
  rw [hsim.daemon] at hdaemon
  have hword : ∀ i, i < k.numBlocks → (UInt32.ofNat i).toNat = i := fun i hi =>
    UInt32.toNat_ofNat_of_lt' (Nat.lt_trans hi (Nat.lt_trans hk (by decide)))
  refine ⟨fun j hj => ?_, fun b => ?_, fun j i hi => ?_⟩
  · have hlen : g.program.given.length = s.caller.given.length := by
      rw [hsim.given, List.length_map]
    calc g.program.given
        = s.caller.given.map UInt32.toNat := hsim.given
      _ = ((List.range s.caller.given.length).map
            fun i => UInt32.ofNat ((j.val + i) % k.numBlocks)).map UInt32.toNat :=
          congrArg _ (hinv.given_eq (hsim.daemon ▸ hj))
      _ = (List.range g.program.given.length).map fun i => (j.val + i) % k.numBlocks := by
          rw [hlen, List.map_map]
          exact List.map_congr_left fun i _ => hword _ (Nat.mod_lt _ k.numBlocks_pos)
  · have hcount := hinv.count_given_le hk b
    rw [hsim.daemon] at hcount
    calc g.program.given.count b.val
        = (s.caller.given.map UInt32.toNat).count (UInt32.ofNat b.val).toNat := by
          rw [hsim.given, hword b b.isLt]
      _ = s.caller.given.count (UInt32.ofNat b.val) :=
          List.count_map_of_injective _ _ (fun _ _ => UInt32.toNat_inj.mp) _
      _ ≤ (dispatches g.daemon.log).count b := hcount
      _ ≤ (fills g.daemon.log).count b := (count_fills hdaemon b).1
  · obtain ⟨hold, hheld, -⟩ := hsim.leased j i hi
    have hplace : 0 < Session.places c s i := by
      simp only [Session.places, Session.held, hheld, Option.isSome_some, Bool.toNat_true]
      omega
    obtain ⟨-, b, rfl, -⟩ := hinv.index hplace
    refine ⟨b, rfl, fun hpc => ?_⟩
    have howes := hinv.owes hplace (by rw [hsim.daemon]; exact hpc)
    rw [hsim.daemon] at howes
    obtain ⟨hstatus, hr⟩ := held_of_owes hdaemon howes
    refine ⟨hstatus, hr, fun v => ?_⟩
    simp [GoSession.step, Session.fromClient, fill_eq_none hstatus]

/-- Both blocks are on loan at the same time. -/
theorem loans_stable_both : ∃ g : State ⟨2, by decide⟩,
    (system ⟨2, by decide⟩ 0 twoBlocks).ReachableBy (Guarded NoStaleLoad) g ∧
    g.program.given = [0, 1] ∧ OnLoan g.program.leases 0 0 ∧ OnLoan g.program.leases 1 1 ∧
    (∀ v, step 0 g (.daemon (.fill 0 v)) = none) ∧ ∀ v, step 0 g (.daemon (.fill 1 v)) = none := by
  have hrun : (((system ⟨2, by decide⟩ 0 twoBlocks).execBy (Guarded NoStaleLoad)
      (system ⟨2, by decide⟩ 0 twoBlocks).init
      (firstRun 0 ++ secondRun 1 ++ [.arrive 8, .call .block, .call .block])).map fun g =>
      (g.program.given.length, (takesSince 0 g.daemon.log).head?,
        g.program.leases.map fun b => (b.t, b.i), (g.daemon.conn 0).pc)) =
      some (2, some 0, [(true, 0), (true, 1)], .select) := by decide +kernel
  obtain ⟨g, hexec, heq⟩ := Option.map_eq_some_iff.mp hrun
  simp only [Prod.mk.injEq] at heq
  obtain ⟨hlen, hj, hleases, hpc⟩ := heq
  have hreach := System.ReachableBy.init.exec _ hexec
  obtain ⟨hgiven, -, hstable⟩ := loans_stable (by decide) rfl hreach
  have hloan : ∀ j i, (g.program.leases.map fun b => (b.t, b.i))[j]? = some (true, i) →
      OnLoan g.program.leases j i := by
    intro j i hji
    rw [List.getElem?_map] at hji
    obtain ⟨b, hb, heq⟩ := Option.map_eq_some_iff.mp hji
    exact ⟨b, hb, (Prod.mk.inj heq).1, (Prod.mk.inj heq).2⟩
  have hloan₀ := hloan 0 0 (by rw [hleases]; rfl)
  have hloan₁ := hloan 1 1 (by rw [hleases]; rfl)
  refine ⟨g, hreach, by rw [hgiven 0 hj, hlen]; decide, hloan₀, hloan₁, ?_, ?_⟩
  · obtain ⟨b, hb, hfree⟩ := hstable 0 0 hloan₀
    exact (show b = 0 from Fin.ext hb) ▸ (hfree (by rw [hpc]; rfl)).2.2
  · obtain ⟨b, hb, hfree⟩ := hstable 1 1 hloan₁
    exact (show b = 1 from Fin.ext hb) ▸ (hfree (by rw [hpc]; rfl)).2.2

end Testimony.GoSession
