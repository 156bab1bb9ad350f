import Testimony.Daemon.Config
import Testimony.Lib.CInt
import Testimony.Proofs.Daemon.AFPacket

/-!
# `Testimony.Proofs.Daemon.NewSocket`: `newSocket` and the end of `AFPacket`

`newSocket_eq` puts `newSocket` in one formula, and `newSocket_ok` says what a success has done.

A failing `AFPacket` undoes what it has done. `fails_cleanly_iff` says when that is so: the length
of the mapping is computed once as a `size_t` and once as an `int`, and a ring of `2 ^ 31` bytes or
more that has been mapped is not unmapped again.
-/

set_option autoImplicit false

namespace Testimony.Daemon

open Lib

/-! ### `newSocket` -/

/-- `newSocket` makes its channel, compiles the filter and calls `AFPacket`, in this order, and the
first that fails decides. -/
theorem newSocket_eq (kernel : Kernel) (compile : Option (List SockFilter)) (sc : ConfigEntry)
    (id : Int) (num : Nat) : newSocket kernel compile sc id num =
      if MakechanPanics sc.numBlocks then .error .makechan
      else match filterOf sc compile with
        | .error e => .error e
        | .ok filters =>
            let r := afPacket kernel (sc.args id filters)
            if r.errno = 0 then .ok ⟨num, sc, sc.numBlocks.toNat, r.fd, r.ring, r.calls⟩
            else .error (.afPacket r.err r.errno) := by
  unfold newSocket
  by_cases hpanic : MakechanPanics sc.numBlocks
  · rw [if_pos hpanic, if_pos hpanic]
    rfl
  · rw [if_neg hpanic, if_neg hpanic]
    cases filterOf sc compile with
    | error e => rfl
    | ok filters =>
        simp only [bind, Except.bind, pure, Except.pure, throw, throwThe, MonadExceptOf.throw,
          ne_eq, ite_not]

/-- What a successful `newSocket` has done. -/
theorem newSocket_ok {kernel : Kernel} {compile : Option (List SockFilter)} {sc : ConfigEntry}
    {id : Int} {num : Nat} {s : Socket} (h : newSocket kernel compile sc id num = .ok s) :
    0 ≤ sc.numBlocks ∧ s.conf = sc ∧ s.numBlocks = sc.numBlocks.toNat ∧
      ∃ filters, filterOf sc compile = .ok filters ∧
        s.calls = .socket :: (sc.args id filters).allCalls kernel ∧
        kernel.rxRing (sc.args id filters).tp3 = none := by
  rw [newSocket_eq] at h
  split at h
  · cases h
  · rename_i hpanic
    split at h
    · cases h
    · rename_i filters hfilters
      simp only at h
      split at h
      · rename_i herrno
        obtain ⟨hcalls, hring, -⟩ := afPacket_ok herrno
        cases h
        exact ⟨Int.not_lt.mp fun hneg => hpanic (.inl hneg), rfl, rfl, filters, hfilters, hcalls,
          hring⟩
      · cases h

/-! ### The ways out of `AFPacket` -/

/-- How `AFPacket` returns. -/
inductive Returned (kernel : Kernel) (a : AFPacketArgs) : AFPacketResult → Prop
  | noSocket {e : SysErrno} (hsocket : kernel.socket = .error e) :
      Returned kernel a ⟨-1, e.val, 0, 0, some .socketCreation, [.socket]⟩
  | done {fd ring : Nat} {s : AFPacketState} (hsocket : kernel.socket = .ok fd)
      (hs : a.setUp kernel ⟨0, [.socket]⟩ = .ok ring s) :
      Returned kernel a ⟨0, s.errno, fd, ring, none, s.calls⟩
  | fail1 {fd ring : Nat} {err : AFPacketMsg} {s : AFPacketState}
      (hsocket : kernel.socket = .ok fd)
      (hs : a.setUp kernel ⟨0, [.socket]⟩ = .error (.fail1 ring err) s) :
      Returned kernel a ⟨-1, s.errno, fd, ring, some err, s.calls ++ [.close fd]⟩
  | fail2 {fd ring : Nat} {err : AFPacketMsg} {s : AFPacketState}
      (hsocket : kernel.socket = .ok fd)
      (hs : a.setUp kernel ⟨0, [.socket]⟩ = .error (.fail2 ring err) s) :
      Returned kernel a ⟨-1, s.errno, fd, ring, some err,
        s.calls ++ [.munmap ring (a.blockSize * a.blockNr).toInt64.toUInt64] ++ [.close fd]⟩

/-- Every run of `AFPacket` ends in one of the ways of `Returned`. -/
theorem returned (kernel : Kernel) (a : AFPacketArgs) :
    Returned kernel a (afPacket kernel a) := by
  unfold afPacket
  split
  · exact .noSocket ‹_›
  · rename_i fd hsocket
    split
    · exact .done hsocket ‹_›
    · exact .fail1 hsocket ‹_›
    · exact .fail2 hsocket ‹_›

variable {kernel : Kernel} {a : AFPacketArgs} {r : AFPacketResult}

/-- The calls at a jump, the first of all among them. -/
theorem calls_of_jump {label : Goto} {s : AFPacketState}
    (h : a.setUp kernel ⟨0, [.socket]⟩ = .error label s) :
    s.errno ≠ 0 ∧ ∃ calls, s.calls = .socket :: calls ∧ Jumped kernel a label calls := by
  have herrno := setsErrno_setUp a kernel ⟨0, [.socket]⟩
  rw [h] at herrno
  exact ⟨herrno, jumps_setUp a kernel _ _ _ h⟩

/-- `errno` tells whether `AFPacket` has failed. -/
theorem Returned.errno_iff (h : Returned kernel a r) : r.errno ≠ 0 ↔ r.ret = -1 := by
  cases h with
  | @noSocket e _ => exact iff_of_true e.ne_zero rfl
  | @done _ _ s _ hs =>
      have herrno := setsErrno_setUp a kernel ⟨0, [.socket]⟩
      rw [hs] at herrno
      exact iff_of_false (fun hne => hne herrno) (show (0 : Int32) ≠ -1 by decide)
  | fail1 _ hs => exact iff_of_true (calls_of_jump hs).1 rfl
  | fail2 _ hs => exact iff_of_true (calls_of_jump hs).1 rfl

/-- A successful `AFPacket` has given nothing back. -/
theorem part_allCalls (a : AFPacketArgs) (kernel : Kernel) :
    ∀ call ∈ a.allCalls kernel, call.part ≠ .release := by
  intro call hcall
  simp only [AFPacketArgs.allCalls, List.mem_append, List.mem_cons, List.not_mem_nil,
    or_false] at hcall
  rcases hcall with rfl | hfilter | rfl | rfl | (rfl | rfl) | hfanout
  · nofun
  · rw [part_filterCalls a call hfilter]
    nofun
  · nofun
  · nofun
  · nofun
  · nofun
  · unfold AFPacketArgs.fanoutCalls at hfanout
    split at hfanout
    · cases hfanout
    · rw [List.mem_singleton.mp hfanout]
      nofun

/-! ### A clean failure -/

/-- What is expected of a call of `AFPacket` that returned `r`. -/
structure CleanResult (kernel : Kernel) (a : AFPacketArgs) (r : AFPacketResult) : Prop where
  closed : ∀ fd, kernel.socket = .ok fd → r.ret = -1 → .close fd ∈ r.calls
  unmapped : ∀ length ring, r.ret = -1 → .mmap length ∈ r.calls →
    kernel.mmap length = .ok ring → .munmap ring length ∈ r.calls
  errno_ne_zero : r.ret = -1 → r.errno ≠ 0
  /-- The jump is the step from `setUp` to a label. -/
  errno_eq : ∀ fd label s, kernel.socket = .ok fd →
    a.setUp kernel ⟨0, [.socket]⟩ = .error label s → r.ret = -1 ∧ r.errno = s.errno
  kept : r.ret = 0 → ∀ call ∈ r.calls, call.part ≠ .release

/-- A `newSocket` that gets to its call of `AFPacket` with the arguments `a` returns an error just
if that call returns -1. -/
def NewSocketReports (kernel : Kernel) (a : AFPacketArgs) : Prop :=
  ∀ (compile : Option (List SockFilter)) (sc : ConfigEntry) (id : Int) (num : Nat)
    (filters : List SockFilter), ¬ MakechanPanics sc.numBlocks →
    filterOf sc compile = .ok filters → sc.args id filters = a →
    ((∃ e, newSocket kernel compile sc id num = .error e) ↔ (afPacket kernel a).ret = -1)

/-- `newSocket` returns an error exactly if its call of `AFPacket` returns -1. -/
theorem newSocket_reports (kernel : Kernel) (a : AFPacketArgs) : NewSocketReports kernel a := by
  rintro compile sc id num filters hpanic hfilters rfl
  rw [← (returned kernel (sc.args id filters)).errno_iff, newSocket_eq, if_neg hpanic, hfilters]
  by_cases herrno : (afPacket kernel (sc.args id filters)).errno = 0
  · simp [herrno]
  · simp [herrno]

/-- The mapping in the calls of a jump to `fail2`. -/
theorem Jumped.mmap_eq {ring : Nat} {err : AFPacketMsg} {calls : List Syscall}
    (h : Jumped kernel a (.fail2 ring err) calls) {length : UInt64}
    (hmem : .mmap length ∈ calls) : length = a.tp3.length := by
  cases h with
  | fail2 _ _ _ _ hcalls =>
      rcases hcalls _ hmem with hpart | heq | hpart
      · cases hpart
      · exact Syscall.mmap.inj heq
      · cases hpart

/-- The ring was mapped before a jump to `fail2`. -/
theorem Jumped.mmap_mem {ring : Nat} {err : AFPacketMsg} {calls : List Syscall}
    (h : Jumped kernel a (.fail2 ring err) calls) : .mmap a.tp3.length ∈ calls := by
  cases h with
  | fail2 _ _ _ hmem => exact hmem

/-- What the kernel has answered at a jump to `fail2`. -/
theorem Jumped.fail2_kernel {ring : Nat} {err : AFPacketMsg} {calls : List Syscall}
    (h : Jumped kernel a (.fail2 ring err) calls) :
    kernel.MapsRing a ∧ kernel.FailsToJoin a ∧ kernel.mmap a.tp3.length = .ok ring := by
  cases h with
  | fail2 hmaps hfails hmap => exact ⟨hmaps, hfails, hmap⟩

/-- Nothing is given back before a label. -/
theorem Jumped.not_munmap {ring ring' : Nat} {err : AFPacketMsg} {calls : List Syscall}
    {length : UInt64} (h : Jumped kernel a (.fail2 ring err) calls) :
    .munmap ring' length ∉ calls := by
  intro hmem
  cases h with
  | fail2 _ _ _ _ hcalls =>
      rcases hcalls _ hmem with hpart | heq | hpart
      · cases hpart
      · cases heq
      · cases hpart

/-- The bytes of the ring, as the kernel is asked for it. -/
def AFPacketArgs.ringBytes (a : AFPacketArgs) : Nat :=
  a.blockSize.toUInt32.toNat * a.blockNr.toUInt32.toNat

/-- A call of `AFPacket` meets what is expected, if no ring of `2 ^ 31` bytes or more has to be
unmapped again. -/
theorem Returned.clean (h : Returned kernel a r)
    (hlen : ∀ fd, kernel.socket = .ok fd → kernel.MapsRing a → kernel.FailsToJoin a →
      a.ringBytes < 2 ^ 31) :
    CleanResult kernel a r := by
  have hzero : (-1 : Int32) ≠ 0 := by decide
  refine ⟨fun fd hfd hret => ?_, fun length ring hret hmem hmap => ?_, h.errno_iff.mpr,
    fun fd label s hfd hs => ?_, fun hret => ?_⟩
  · cases h with
    | noSocket hsocket =>
        rw [hsocket] at hfd
        cases hfd
    | done _ _ => exact absurd hret hzero.symm
    | fail1 hsocket _ | fail2 hsocket _ =>
        rw [hsocket] at hfd
        cases hfd
        exact List.mem_append_right _ (List.mem_singleton.mpr rfl)
  · cases h with
    | noSocket _ => simp at hmem
    | done _ _ => exact absurd hret hzero.symm
    | fail1 _ hs =>
        -- Only a mapping that failed leads to this label.
        obtain ⟨-, calls, hcalls, ⟨-, hjump⟩⟩ := calls_of_jump hs
        simp only [hcalls, List.cons_append, List.mem_cons, List.mem_append, reduceCtorEq,
          List.not_mem_nil, false_or, or_false] at hmem
        rcases hjump _ hmem with hpart | ⟨heq, hfailed⟩
        · cases hpart
        · rw [Syscall.mmap.inj heq] at hmap
          exact absurd hmap (hfailed ring)
    | fail2 hsocket hs =>
        obtain ⟨-, calls, hcalls, hjump⟩ := calls_of_jump hs
        simp only [hcalls, List.cons_append, List.mem_cons, List.mem_append, reduceCtorEq,
          List.not_mem_nil, false_or, or_false] at hmem
        obtain rfl := hjump.mmap_eq hmem
        obtain ⟨hmaps, hfails, hring⟩ := hjump.fail2_kernel
        have hbytes := hlen _ hsocket hmaps hfails
        rw [hring] at hmap
        cases hmap
        -- The two products agree.
        have hsame := (intProduct_eq_iff a.blockSize a.blockNr).mpr hbytes
        rw [hsame]
        exact List.mem_append_left _ (List.mem_append_right _ (List.mem_singleton.mpr rfl))
  · cases h with
    | noSocket hsocket =>
        rw [hsocket] at hfd
        cases hfd
    | done _ hs' =>
        rw [hs'] at hs
        cases hs
    | fail1 _ hs' | fail2 _ hs' =>
        rw [hs'] at hs
        cases hs
        exact ⟨rfl, rfl⟩
  · cases h with
    | noSocket _ => exact absurd hret hzero
    | done _ hs =>
        intro call hcall
        rw [(makes_setUp a kernel _ _ _ hs).1] at hcall
        rcases List.mem_cons.mp hcall with rfl | hcall
        · nofun
        · exact part_allCalls a kernel call hcall
    | fail1 _ _ | fail2 _ _ => exact absurd hret hzero

/-- `AFPacket` fails cleanly exactly if the kernel does not map a ring of `2 ^ 31` bytes or more and
then refuse one of the calls behind the mapping. `newSocket` always notices the failure. -/
theorem fails_cleanly_iff (kernel : Kernel) (a : AFPacketArgs) :
    CleanResult kernel a (afPacket kernel a) ∧ NewSocketReports kernel a ↔
      ∀ fd, kernel.socket = .ok fd → kernel.MapsRing a → kernel.FailsToJoin a →
        a.ringBytes < 2 ^ 31 := by
  have h := returned kernel a
  refine ⟨fun hclean fd hfd hmaps hfails => ?_, fun hlen =>
    ⟨h.clean hlen, newSocket_reports kernel a⟩⟩
  have hunmapped := hclean.1.unmapped a.tp3.length
  generalize afPacket kernel a = r at h hunmapped
  cases h with
  | noSocket hsocket =>
      rw [hsocket] at hfd
      cases hfd
  | done _ hs => exact absurd hfails (makes_setUp a kernel _ _ _ hs).2.2.2
  | fail1 _ hs =>
      obtain ⟨-, calls, -, ⟨hnot, -⟩⟩ := calls_of_jump hs
      exact absurd hmaps hnot
  | @fail2 fd ring err s _ hs =>
      obtain ⟨-, calls, hcalls, hjump⟩ := calls_of_jump hs
      -- There is one `munmap`, and its length is the product of the `int`s.
      have hmunmap := hunmapped ring rfl (by simp [hcalls, hjump.mmap_mem])
        hjump.fail2_kernel.2.2
      simp only [hcalls, List.cons_append, List.mem_cons, List.mem_append, reduceCtorEq,
        List.not_mem_nil, false_or, or_false, hjump.not_munmap, Syscall.munmap.injEq,
        true_and] at hmunmap
      exact (intProduct_eq_iff a.blockSize a.blockNr).mp hmunmap.symm

/-- A kernel on which everything works that may. -/
def quietKernel : Kernel where
  socket := .ok 5
  packetVersion := none
  attachFilter := fun _ _ => none
  lockFilter := none
  rxRing := fun req =>
    if 0 < req.blockSize.toInt32 ∧ 0 < req.blockNr.toInt32 then none else some eINVAL
  mmap := fun _ => .ok 4096
  ifNametoindex := fun _ => 2
  bind := fun _ => none
  fanout := fun _ => none
  munmap := none
  close := none

/-- A ring of `blockNr` blocks of a megabyte, one of two. -/
def megabytes (blockNr : Int32) : AFPacketArgs where
  iface := "eth0"
  blockSize := 1048576
  blockNr := blockNr
  blockMs := 100
  fanoutId := 1
  fanoutSize := 2
  fanoutType := 0
  filterSize := 0
  filters := []

/-- The interface is not there. -/
def noInterface : Kernel := { quietKernel with ifNametoindex := fun _ => 0 }

/-- Two gigabytes are mapped, and the interface is not there. The length of the `munmap` is
another one. -/
theorem ring_stays_mapped :
    let r := afPacket noInterface (megabytes 2048)
    r.ret = -1 ∧ r.errno = 22 ∧ noInterface.mmap 2147483648 = .ok 4096 ∧
      r.calls = [.socket, .packetVersion 2, .rxRing (megabytes 2048).tp3, .mmap 2147483648,
        .ifNametoindex "eth0", .munmap 4096 18446744071562067968, .close 5] ∧
      ¬ CleanResult noInterface (megabytes 2048) r := by
  intro r
  have hcalls : r.calls = [.socket, .packetVersion 2, .rxRing (megabytes 2048).tp3,
      .mmap 2147483648, .ifNametoindex "eth0", .munmap 4096 18446744071562067968, .close 5] := by
    decide +kernel
  refine ⟨by decide +kernel, by decide +kernel, rfl, hcalls, fun hclean => ?_⟩
  have hmem := hclean.unmapped 2147483648 4096 (by decide +kernel) (by simp [hcalls]) rfl
  rw [hcalls] at hmem
  revert hmem
  decide +kernel

end Testimony.Daemon
