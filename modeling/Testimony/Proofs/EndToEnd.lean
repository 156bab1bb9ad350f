import Testimony.Proofs.Daemon.Contents
import Testimony.Proofs.Session

/-!
# `Testimony.Proofs.EndToEnd`: from the kernel to the program

What a C program gets of what the kernel writes, in a session with the daemon in which
`getNewBlocks` loads no stale status.

`received_in_order`: the blocks the program is given are those that `socket.run` takes from the
moment the client is registered, one after the other round the ring, with none left out. A block
is given at most as often as the kernel has filled it.

`flow_bounded`: there is never more under way than one index for each block of the ring, in either
direction, and `handleReads` never waits for `conn.run`. So with room for that much in the sockets
no side waits for the other to read.

`held_block_stable`: from the mark of a block to the end of its return, wherever its index is, the
kernel does not write to the block. The one exception is the last loop of `conn.run`, which drops
the blocks of a client that is gone.
-/

set_option autoImplicit false

namespace Testimony.Wire

open Lib.BigEndian

/-- Two streams of indexes that read the same are the same. -/
theorem encodeIndexes_injective : Function.Injective encodeIndexes := by
  intro is
  induction is with
  | nil =>
      intro js h
      cases js with
      | nil => rfl
      | cons j js => exact absurd h.symm (by simp [encodeIndexes, putUint32])
  | cons i is ih =>
      intro js h
      cases js with
      | nil => exact absurd h (by simp [encodeIndexes, putUint32])
      | cons j js =>
          simp only [encodeIndexes, List.flatMap_cons] at h
          obtain ⟨hhead, htail⟩ := List.append_inj h (by simp)
          have hij : i = j := by rw [← uint32_putUint32 i, hhead, uint32_putUint32]
          rw [hij, ih htail]

end Testimony.Wire

namespace Testimony.Client

open Lib Lib.BigEndian Source Wire

/-- A call without a time limit finds the index that is there. -/
theorem readIndex_ok {t : T} (hfd : t.sockFd ≠ 0) (hring : t.ring ≠ 0) {x : UInt32}
    {is : List UInt32} (his : ∀ y ∈ x :: is, y.toNat < 2 ^ 31)
    (hle : pending t.sock <+: encodeIndexes (x :: is)) (hlen : 4 ≤ (pending t.sock).length) :
    ∃ sock, readIndex t (-1) [] = .ok (some x) sock ∧
      pending t.sock = putUint32 x ++ pending sock ∧ ending sock = ending t.sock := by
  have hfetched := fetched_readIndex his hle (-1) []
  obtain ⟨n, part, hpending, hpart⟩ := exists_take_encodeIndexes _ _ hle
  have hmsgs : ∀ y, Msg.block y ∈ ((x :: is).take n).map Msg.block → y.toNat < 2 ^ 31 := by
    intro y hy
    obtain ⟨z, hz, hzy⟩ := List.mem_map.mp hy
    cases hzy
    exact his y (List.mem_of_mem_take hz)
  have hsome : indexes (((x :: is).take n).map Msg.block) ≠ [] := by
    rw [indexes_block]
    cases n with
    | zero =>
        have hnil : encodeMsgs (((x :: is).take 0).map Msg.block) = [] := rfl
        rw [hpending, hnil, List.nil_append] at hlen
        omega
    | succ n => simp
  have hgot := readIndex_cases hfd hring (-1) [] hpart hmsgs hpending
  generalize readIndex t (-1) [] = r at hfetched hgot
  cases hgot with
  | @index y _ sock hx hrest hp hending =>
      obtain ⟨⟨js, hjs⟩, hpend, hend⟩ := hfetched
      cases hjs
      exact ⟨sock, rfl, hpend, hend⟩
  | timedOut htime | pollFailed htime => exact absurd htime (by decide)
  | ended hx => exact absurd hx hsome
  | blocked hx =>
      rcases hx with hx | hx
      · exact absurd hx (by decide)
      · exact absurd hx hsome

end Testimony.Client

namespace Testimony.Session

open Lib Lib.BigEndian Source Client Daemon Wire

variable {k : Conf} {c : ConnId} {t : T} {s : State k}

/-- A guard of the daemon's steps, in a session. -/
def Guarded (P : Daemon.State k → Daemon.Label k → Prop) (s : State k) : Label k → Prop
  | .daemon l => P s.daemon l
  | _ => True

/-- A condition on the daemon's steps that can be decided can be decided of the steps of a
session. -/
instance (P : Daemon.State k → Daemon.Label k → Prop) [∀ d l, Decidable (P d l)] (s : State k)
    (l : Label k) : Decidable (Guarded P s l) := by
  unfold Guarded
  split <;> infer_instance

/-- The daemon's side of a guarded session is a guarded run. -/
theorem daemon_of_guarded {P : Daemon.State k → Daemon.Label k → Prop}
    (hP : ∀ d bytes, P d (.reads c (.data bytes)))
    (h : (system k c t).ReachableBy (Guarded P) s) :
    (Daemon.system k).ReachableBy P s.daemon := by
  refine System.ReachableBy.invariant
    (P := fun s : State k => (Daemon.system k).ReachableBy P s.daemon) .init ?_ h
  intro s l s' _ hs hG hstep
  cases step_cases hstep with
  | daemon hl hd => exact hs.step hG hd
  | deliver hback hpc hd => exact hs.step (e := .reads c (.data (putUint32 _))) (hP _ _) hd
  | arrive | stop | call hcaller => exact hs

/-- A session that begins with a client as `testimony_init` leaves it. -/
theorem inv_of_initiated (hk : k.numBlocks < 2 ^ 31) (ht : t.Initiated k.numBlocks)
    (hsock : pending t.sock = []) (h : (system k c t).Reachable s) : Inv c s :=
  inv_of_reachable hk ht.mapped ht.blockNr_eq ht.counts hsock h

/-! ### Order -/

/-- What `socket.run` has taken for the connection, as the words that go to the client. -/
theorem takesSince_words {d : Daemon.State k} (h : (Daemon.system k).Reachable d) {j : k.Index}
    (hj : (takesSince c d.log).head? = some j) :
    (takesSince c d.log).map (fun b : k.Index => UInt32.ofNat b.val) =
      (List.range (takesSince c d.log).length).map
        fun i => UInt32.ofNat ((j.val + i) % k.numBlocks) := by
  refine encodeIndexes_injective ?_
  rw [← encode_eq, encode_takesSince (ordered_of_reachable h) hj, ringBytes, encodeIndexes,
    List.flatMap_map]

/-- What the program has been given is part of it. -/
theorem Inv.given_le (h : Inv c s) : s.caller.given <+:
    (takesSince c s.daemon.log).map fun b : k.Index => UInt32.ofNat b.val :=
  calc s.caller.given
      <+: s.caller.seen := List.prefix_append _ _
    _ <+: words c s := h.seen
    _ <+: _ := (marks_le_takesSince h.reach c).map _

/-- The program's blocks go round the ring from the first one that was taken for it. -/
theorem Inv.given_eq (h : Inv c s) {j : k.Index}
    (hj : (takesSince c s.daemon.log).head? = some j) :
    s.caller.given = (List.range s.caller.given.length).map
      fun i => UInt32.ofNat ((j.val + i) % k.numBlocks) := by
  have hle := h.given_le
  have hlen := hle.length_le
  rw [List.length_map] at hlen
  rw [takesSince_words h.reach hj, List.prefix_iff_eq_take, ← List.map_take, List.take_range,
    Nat.min_eq_left hlen] at hle
  exact hle

/-- The word of an index is the index. -/
theorem toNat_ofNat_val (hk : k.numBlocks < 2 ^ 31) (b : k.Index) :
    (UInt32.ofNat b.val).toNat = b.val :=
  UInt32.toNat_ofNat_of_lt' (Nat.lt_trans b.isLt (Nat.lt_trans hk (by decide)))

/-- Two blocks with the same word are the same block. -/
theorem ofNat_val_injective (hk : k.numBlocks < 2 ^ 31) :
    Function.Injective fun b : k.Index => UInt32.ofNat b.val := by
  intro b b' hbb
  refine Fin.ext ?_
  rw [← toNat_ofNat_val hk b, ← toNat_ofNat_val hk b']
  exact congrArg UInt32.toNat hbb

/-- A block is given at most as often as it was dispatched. -/
theorem Inv.count_given_le (h : Inv c s) (hk : k.numBlocks < 2 ^ 31) (b : k.Index) :
    s.caller.given.count (UInt32.ofNat b.val) ≤ (dispatches s.daemon.log).count b :=
  calc s.caller.given.count (UInt32.ofNat b.val)
      ≤ ((takesSince c s.daemon.log).map fun b : k.Index => UInt32.ofNat b.val).count
          (UInt32.ofNat b.val) := h.given_le.sublist.count_le _
    _ = (takesSince c s.daemon.log).count b :=
        List.count_map_of_injective _ _ (ofNat_val_injective hk) b
    _ ≤ (takes s.daemon.log).count b := (takesSince_suffix c _).sublist.count_le _
    _ ≤ (dispatches s.daemon.log).count b := by
        rw [← (ordered_of_reachable h.reach).queue]
        exact (List.sublist_append_left _ _).count_le _

/-- The blocks a C program is given are those that `socket.run` takes from the registration of its
connection on, as far as they have come. So they are `j`, `j + 1`, … round the ring, with none left
out and none given twice for one fill of the kernel. Before the first of them it is given none. -/
theorem received_in_order (hk : k.numBlocks < 2 ^ 31) (ht : t.Initiated k.numBlocks)
    (hsock : pending t.sock = []) (h : (system k c t).ReachableBy (Guarded NoStaleLoad) s) :
    s.caller.given <+: (takesSince c s.daemon.log).map (fun b => UInt32.ofNat b.val) ∧
    ((takesSince c s.daemon.log).head? = none → s.caller.given = []) ∧
    (∀ j, (takesSince c s.daemon.log).head? = some j →
      s.caller.given = (List.range s.caller.given.length).map
        fun i => UInt32.ofNat ((j.val + i) % k.numBlocks)) ∧
    ∀ b : k.Index, s.caller.given.count (UInt32.ofNat b.val) ≤ (fills s.daemon.log).count b := by
  have hinv := inv_of_initiated hk ht hsock h.reachable
  refine ⟨hinv.given_le, fun hnone => ?_, fun j hj => hinv.given_eq hj, fun b => ?_⟩
  · have hle := hinv.given_le
    rw [List.head?_eq_none_iff.mp hnone] at hle
    exact List.prefix_nil.mp hle
  · have hguard := daemon_of_guarded (fun _ _ => trivial) h
    exact (hinv.count_given_le hk b).trans (count_fills hguard b).1

/-- Block zero is dispatched and given up without a client, and then one joins. -/
def joinLateRun : List (Label k) :=
  List.map Label.daemon
    (dispatchRun ++ [.run .newBlock, .run .go, .run .go, .run .go, .run .newConn])

/-- The client is sent two blocks, one after the other, and the program takes both. -/
def takeTwoRun : List (Label k) :=
  List.map Label.daemon (dispatchRun ++ fanOutRun 0 ++ [.run .go, .run .go] ++ writeRun 0 ++
      dispatchRun ++ fanOutRun 0 ++ writeRun 0) ++
    [.arrive 8, .call (.read (-1) []), .call (.claim 1), .call (.read (-1) []), .call (.claim 1)]

/-- A client that joins after block zero has gone by is given block one, and then block zero. -/
theorem received_in_order_late : ∃ s : State ⟨2, by decide⟩,
    (system ⟨2, by decide⟩ 0 (T.onRing 2 [])).ReachableBy (Guarded NoStaleLoad) s ∧
    s.caller.given.length = 2 ∧ s.caller.given = [1, 0] ∧
    s.caller.given <+: (takesSince 0 s.daemon.log).map (fun b => UInt32.ofNat b.val) ∧
    s.caller.given.count 0 ≤ (fills s.daemon.log).count 0 := by
  have hrun : (((system ⟨2, by decide⟩ 0 (T.onRing 2 [])).execBy (Guarded NoStaleLoad)
      (system ⟨2, by decide⟩ 0 (T.onRing 2 [])).init
      (.daemon (.fill 0 1) :: .daemon (.fill 1 1) :: joinLateRun ++
        .daemon (.fill 0 1) :: takeTwoRun)).map fun s =>
      (s.caller.given.length, (takesSince 0 s.daemon.log).head?)) = some (2, some 1) := by
    decide +kernel
  obtain ⟨s, hexec, heq⟩ := Option.map_eq_some_iff.mp hrun
  obtain ⟨hlen, hj⟩ := Prod.mk.inj heq
  have hreach := System.ReachableBy.init.exec _ hexec
  obtain ⟨hle, -, hgiven, hcount⟩ := received_in_order (by decide)
    (T.initiated_onRing (show 2 < 2 ^ 32 by decide) []) (by decide) hreach
  refine ⟨s, hreach, hlen, ?_, hle, hcount 0⟩
  rw [hgiven 1 hj, hlen]
  decide

/-! ### Room -/

/-- The returns of `Conn.returning`, as a list. -/
def returns (cn : Conn k) : List Nat :=
  (match cn.reads with
    | .post v => [v - 1]
    | _ => []) ++ cn.oldBlocks.buf.map (· - 1)

/-- Everything under way between `conn.run` and the program. -/
def underWay (c : ConnId) (s : State k) : List Nat :=
  unread c s ++ s.back.map UInt32.toNat ++ returns (s.daemon.conn c)

/-- Indexes that are kept one higher than they are count the same. -/
theorem count_map_pred {l : List Nat} (hl : ∀ v ∈ l, 0 < v) (i : Nat) :
    (l.map (· - 1)).count i = l.count (i + 1) := by
  induction l with
  | nil => rfl
  | cons v l ih =>
      have hv := hl v (List.mem_cons_self ..)
      have hiff : v - 1 = i ↔ v = i + 1 := by omega
      rw [List.map_cons, List.count_cons, List.count_cons,
        ih fun w hw => hl w (List.mem_cons_of_mem _ hw)]
      simp only [beq_iff_eq, hiff]

/-- The list of returns has what `Conn.returning` counts. -/
theorem count_returns {cn : Conn k} (h : cn.Ok) (i : Nat) :
    (returns cn).count i = cn.returning i := by
  rw [returns, Conn.returning, List.count_append,
    count_map_pred (fun v hv => (h.posted v hv).1) i]
  congr 1
  cases hpc : cn.reads with
  | post v =>
      have hv := (h.posting v hpc).1
      have hiff : v - 1 = i ↔ v = i + 1 := by omega
      simp only [List.count_singleton, beq_iff_eq, hiff, ReadsPc.post.injEq]
  | _ => simp

/-- Nothing is under way twice, and nothing but blocks of the ring. -/
theorem Inv.underWay (h : Inv c s) :
    (underWay c s).Nodup ∧ ∀ i ∈ underWay c s, i < k.numBlocks := by
  have hok := (Daemon.inv_of_reachable h.reach).life.ok c
  have hle : ∀ i, (Session.underWay c s).count i ≤ places c s i := by
    intro i
    rw [Session.underWay, List.count_append, List.count_append, count_returns hok, places]
    omega
  refine ⟨List.nodup_iff_count_le_one.mpr fun i => ?_, fun i hi => ?_⟩
  · exact (hle i).trans ((h.places_le i).trans (Conn.owed_le_one _ i))
  · obtain ⟨-, b, rfl, -⟩ := h.index (Nat.lt_of_lt_of_le (List.count_pos_iff.mpr hi) (hle i))
    exact b.isLt

/-- So there is no more under way than the ring has blocks. -/
theorem Inv.length_underWay (h : Inv c s) : (Session.underWay c s).length ≤ k.numBlocks := by
  obtain ⟨hnodup, hlt⟩ := h.underWay
  have hsub : Session.underWay c s ⊆ List.range k.numBlocks := fun i hi =>
    List.mem_range.mpr (hlt i hi)
  simpa using (hnodup.subperm hsub).length_le

/-- An index takes four bytes. -/
theorem length_encodeIndexes (is : List UInt32) : (encodeIndexes is).length = 4 * is.length := by
  induction is with
  | nil => rfl
  | cons i is ih =>
      have hcons : encodeIndexes (i :: is) = putUint32 i ++ encodeIndexes is := List.flatMap_cons
      rw [hcons, List.length_append, ih, length_putUint32, List.length_cons]
      omega

/-- The bytes for the client are those of indexes that it has not read. -/
theorem Inv.length_toClient (h : Inv c s) :
    (pending s.caller.t.sock).length + s.net.length ≤ 4 * (unread c s).length := by
  obtain ⟨lost, -, hstream⟩ := h.stream
  have hle := ((traced_of_reachable h.reach).conn c).sent_le.length_le
  have hseen := h.length_seen
  rw [← hstream, encode_eq, length_encodeIndexes] at hle
  simp only [List.length_append, length_encodeIndexes, List.length_map] at hle
  rw [unread, List.length_map, List.length_drop]
  omega

/-- There is room for what `handleReads` passes on. -/
theorem Inv.send_ne_full (h : Inv c s) {v : Nat} (hpc : (s.daemon.conn c).reads = .post v) :
    (s.daemon.conn c).oldBlocks.send v ≠ .full := by
  intro hfull
  have hlen := h.length_underWay
  have hcap := Chan.send_eq_full hfull
  simp only [Session.underWay, returns, hpc, List.length_append, List.length_map,
    List.length_singleton] at hlen
  omega

/-- In a session of a C program there are at any time at most `NumBlocks` indexes under way: in the
stream to the client, in the stream back, with `handleReads` and in `oldBlocks` taken together. So
each direction of the connection needs room for `4 * NumBlocks` bytes, and `handleReads` never
waits for `conn.run`. -/
theorem flow_bounded (hk : k.numBlocks < 2 ^ 31) (ht : t.Initiated k.numBlocks)
    (hsock : pending t.sock = []) (h : (system k c t).Reachable s) :
    (unread c s).length + s.back.length + (returns (s.daemon.conn c)).length ≤ k.numBlocks ∧
    (pending s.caller.t.sock).length + s.net.length ≤ 4 * k.numBlocks ∧
    ∀ v, (s.daemon.conn c).reads = .post v → (s.daemon.conn c).oldBlocks.send v ≠ .full := by
  have hinv := inv_of_initiated hk ht hsock h
  have hlen := hinv.length_underWay
  have hbytes := hinv.length_toClient
  simp only [Session.underWay, List.length_append, List.length_map] at hlen
  exact ⟨by omega, by omega, fun v => hinv.send_ne_full⟩

/-- With one block, the bound is met by the index that `handleReads` is about to pass on. -/
theorem flow_bounded_post : ∃ s : State ⟨1, by decide⟩,
    (system ⟨1, by decide⟩ 0 (T.onRing 1 [])).Reachable s ∧
    (s.daemon.conn 0).reads = .post 1 ∧ returns (s.daemon.conn 0) = [0] ∧
    s.back.length + (returns (s.daemon.conn 0)).length ≤ 1 ∧
    (s.daemon.conn 0).oldBlocks.send 1 ≠ .full := by
  have hrun : (((system ⟨1, by decide⟩ 0 (T.onRing 1 [])).exec
      (system ⟨1, by decide⟩ 0 (T.onRing 1 [])).init
      (heldRun 0 ++ [.call (.returnBlock 0), .call (.send 0 none), .deliver])).map fun s =>
      ((s.daemon.conn 0).reads, returns (s.daemon.conn 0))) = some (.post 1, [0]) := by
    decide +kernel
  obtain ⟨s, hexec, heq⟩ := Option.map_eq_some_iff.mp hrun
  obtain ⟨hreads, hreturns⟩ := Prod.mk.inj heq
  have hreach := System.reachable_of_exec hexec
  obtain ⟨hlen, -, hroom⟩ := flow_bounded (by decide)
    (T.initiated_onRing (show 1 < 2 ^ 32 by decide) []) (by decide) hreach
  change _ + _ + _ ≤ 1 at hlen
  exact ⟨s, hreach, hreads, hreturns, by omega, hroom 1 hreads⟩

/-! ### Stability -/

/-- A block whose index is somewhere between its mark and the end of its return is one that the
connection holds a reference to. -/
theorem Inv.owes (h : Inv c s) {b : k.Index} (hb : 0 < places c s b)
    (hpc : (s.daemon.conn c).pc.unswept b = true) : (s.daemon.conn c).owes b = true := by
  obtain ⟨-, b', hval, hout⟩ := h.index hb
  rw [Fin.ext hval] at hout
  rw [Conn.owes, hout, hpc]
  rfl

/-- In a run without a stale load, the kernel cannot write to a block from its mark to the end of
its return, wherever its index is: in the stream to the client, with the program, in the stream back
or with `handleReads`. This holds as long as `conn.run` has not dropped the block in its last
loop. -/
theorem held_block_stable (hk : k.numBlocks < 2 ^ 31) (ht : t.Initiated k.numBlocks)
    (hsock : pending t.sock = []) (h : (system k c t).ReachableBy (Guarded NoStaleLoad) s)
    {b : k.Index} (hb : 0 < places c s b) (hpc : (s.daemon.conn c).pc.unswept b = true) :
    s.daemon.blockStatus b ≠ 0 ∧ 0 < s.daemon.r b ∧
      ∀ v, step c s (.daemon (.fill b v)) = none := by
  have hinv := inv_of_initiated hk ht hsock h.reachable
  obtain ⟨hstatus, hr⟩ := held_of_owes (daemon_of_guarded (fun _ _ => trivial) h)
    (hinv.owes hb hpc)
  refine ⟨hstatus, hr, fun v => ?_⟩
  simp [Session.step, fromClient, fill_eq_none hstatus]

/-- The program has returned its block, and the index is still on its way. -/
theorem held_block_stable_back : ∃ s : State ⟨1, by decide⟩,
    (system ⟨1, by decide⟩ 0 (T.onRing 1 [])).ReachableBy (Guarded NoStaleLoad) s ∧ s.back = [0] ∧
    s.daemon.blockStatus 0 ≠ 0 ∧ 0 < s.daemon.r 0 ∧
      ∀ v, step 0 s (.daemon (.fill 0 v)) = none := by
  have hrun : (((system ⟨1, by decide⟩ 0 (T.onRing 1 [])).execBy (Guarded NoStaleLoad)
      (system ⟨1, by decide⟩ 0 (T.onRing 1 [])).init
      (heldRun 0 ++ [.call (.returnBlock 0), .call (.send 0 none)])).map fun s =>
      (s.back, places 0 s 0, (s.daemon.conn 0).pc)) = some ([0], 1, .select) := by decide +kernel
  obtain ⟨s, hexec, heq⟩ := Option.map_eq_some_iff.mp hrun
  simp only [Prod.mk.injEq] at heq
  obtain ⟨hback, hplaces, hpc⟩ := heq
  have hreach := System.ReachableBy.init.exec _ hexec
  exact ⟨s, hreach, hback, held_block_stable (by decide)
    (T.initiated_onRing (show 1 < 2 ^ 32 by decide) []) (by decide) hreach
    (b := 0) (show 0 < places 0 s 0 by omega) (by rw [hpc]; rfl)⟩

end Testimony.Session
