import Testimony.Daemon.AFPacket
import Testimony.Lib.Reader

/-!
# `Testimony.Proofs.Daemon.AFPacket`: what `AFPacket` has done when it returns

`afPacket_ok`: if `errno` is still zero at the end, every call was made and answered well. The
list of calls then tells which ring the kernel was asked for and which fanout group the socket
joined.

`jumps_setUp` says what had been done when a call failed: the jump goes to `fail2` if the ring was
mapped and to `fail1` if it was not.
-/

set_option autoImplicit false

namespace Testimony.Daemon

open Lib

/-- Calls that leave `errno` alone as long as they succeed, and set it when they fail. -/
def SetsErrno {α : Type} (f : EStateM Goto AFPacketState α) : Prop :=
  ∀ s, match f s with
    | .ok _ s' => s'.errno = s.errno
    | .error _ s' => s'.errno ≠ 0

/-- A constant leaves `errno` alone. -/
theorem SetsErrno.pure {α : Type} (a : α) : SetsErrno (pure a) := fun _ => rfl

/-- A system call leaves `errno` alone if it succeeds, and sets it if it fails. -/
theorem SetsErrno.syscall {call : Syscall} {answer : Option SysErrno} {label : Goto} :
    SetsErrno (syscall call answer label) := by
  intro s
  cases answer with
  | none => rfl
  | some e => exact e.ne_zero

/-- So does a sequence of such calls. -/
theorem SetsErrno.bind {α β : Type} {f : EStateM Goto AFPacketState α}
    {g : α → EStateM Goto AFPacketState β} (hf : SetsErrno f) (hg : ∀ a, SetsErrno (g a)) :
    SetsErrno (f >>= g) := by
  intro s
  have hfs := hf s
  cases h : f s with
  | ok a s' =>
      rw [h] at hfs
      rw [bind_ok h]
      have hgs := hg a s'
      cases h' : g a s' with
      | ok b s'' =>
          rw [h'] at hgs
          exact hgs.trans hfs
      | error l s'' =>
          rw [h'] at hgs
          exact hgs
  | error l s' =>
      rw [h] at hfs
      rw [bind_error h]
      exact hfs

/-- The calls that attach the filter and lock it. -/
theorem setsErrno_setFilter (a : AFPacketArgs) (kernel : Kernel) :
    SetsErrno (a.setFilter kernel) := by
  unfold AFPacketArgs.setFilter
  split
  · exact .pure ()
  · exact .bind .syscall fun _ => .syscall

/-- The call that maps the ring. -/
theorem setsErrno_mapRing (a : AFPacketArgs) (kernel : Kernel) :
    SetsErrno (a.mapRing kernel) := by
  unfold AFPacketArgs.mapRing
  split <;> exact .bind .syscall fun _ => .pure _

/-- The calls that bind the socket and join the fan-out group. -/
theorem setsErrno_joinFanout (a : AFPacketArgs) (kernel : Kernel) (ring : Nat) :
    SetsErrno (a.joinFanout kernel ring) := by
  unfold AFPacketArgs.joinFanout
  split
  · exact .pure ()
  · exact .syscall

/-- All calls of `AFPacket` behind `socket`, up to a jump. -/
theorem setsErrno_setUp (a : AFPacketArgs) (kernel : Kernel) : SetsErrno (a.setUp kernel) :=
  .bind .syscall fun _ => .bind (setsErrno_setFilter a kernel) fun _ =>
    .bind .syscall fun _ => .bind (setsErrno_mapRing a kernel) fun ring =>
      .bind (.bind .syscall fun _ => .syscall) fun _ =>
        .bind (setsErrno_joinFanout a kernel ring) fun _ => .pure ring

/-! ### The calls of a success -/

/-- When `f` succeeds it has made the calls `calls`, and `P` holds of the answers. -/
def Makes {α : Type} (f : EStateM Goto AFPacketState α) (calls : List Syscall) (P : α → Prop) :
    Prop :=
  ∀ s a s', f s = .ok a s' → s'.calls = s.calls ++ calls ∧ P a

/-- A constant makes no call. -/
theorem Makes.pure {α : Type} (a : α) : Makes (pure a) [] (· = a) := by
  intro s a' s' h
  cases h
  exact ⟨(List.append_nil _).symm, rfl⟩

/-- A system call that goes on has been answered without an error. -/
theorem Makes.syscall {call : Syscall} {answer : Option SysErrno} {label : Goto} :
    Makes (syscall call answer label) [call] fun _ => answer = none := by
  intro s a s' h
  cases answer with
  | none =>
      cases h
      exact ⟨rfl, rfl⟩
  | some e => cases h

/-- A sequence makes the calls of its first part and then those of its second. -/
theorem Makes.bind {α β : Type} {f : EStateM Goto AFPacketState α}
    {g : α → EStateM Goto AFPacketState β} {c₁ c₂ : List Syscall} {P : α → Prop} {Q : β → Prop}
    (hf : Makes f c₁ P) (hg : ∀ a, P a → Makes (g a) c₂ Q) : Makes (f >>= g) (c₁ ++ c₂) Q := by
  intro s b s'' h
  cases hfs : f s with
  | ok a s' =>
      rw [bind_ok hfs] at h
      obtain ⟨hcalls, hP⟩ := hf s a s' hfs
      obtain ⟨hcalls', hQ⟩ := hg a hP s' b s'' h
      exact ⟨by rw [hcalls', hcalls, List.append_assoc], hQ⟩
  | error l s' =>
      rw [bind_error hfs] at h
      cases h

/-- A weaker condition holds of the result as well. -/
theorem Makes.imp {α : Type} {f : EStateM Goto AFPacketState α} {calls : List Syscall}
    {P Q : α → Prop} (hf : Makes f calls P) (hPQ : ∀ a, P a → Q a) : Makes f calls Q := by
  intro s a s' h
  obtain ⟨hcalls, hP⟩ := hf s a s' h
  exact ⟨hcalls, hPQ a hP⟩

/-- The calls of the optional parts. -/
def AFPacketArgs.filterCalls (a : AFPacketArgs) : List Syscall :=
  if a.filterSize = 0 then []
  else [.attachFilter a.filterSize.toUInt32.toUInt16 a.filters, .lockFilter 1]

/-- The calls for the fan-out group. A group of one socket is not made. -/
def AFPacketArgs.fanoutCalls (a : AFPacketArgs) : List Syscall :=
  if a.fanoutSize = 1 then [] else [.fanout a.fanout]

/-- The kernel takes the filter, if there is one. -/
def Kernel.TakesFilter (kernel : Kernel) (a : AFPacketArgs) : Prop :=
  a.filterSize ≠ 0 →
    kernel.attachFilter a.filterSize.toUInt32.toUInt16 a.filters = none ∧ kernel.lockFilter = none

/-- The kernel answers every call up to the mapping of the ring well. -/
structure Kernel.MapsRing (kernel : Kernel) (a : AFPacketArgs) : Prop where
  packetVersion : kernel.packetVersion = none
  filter : kernel.TakesFilter a
  rxRing : kernel.rxRing a.tp3 = none
  mmap : ∃ ring, kernel.mmap a.tp3.length = .ok ring

/-- The kernel answers one of the calls behind the mapping badly: there is no such interface, or the
socket cannot be bound to it, or it cannot join its fanout group. -/
def Kernel.FailsToJoin (kernel : Kernel) (a : AFPacketArgs) : Prop :=
  kernel.ifNametoindex a.iface = 0 ∨ kernel.bind (kernel.ifNametoindex a.iface) ≠ none ∨
    (a.fanoutSize ≠ 1 ∧ kernel.fanout a.fanout ≠ none)

/-- The filter is attached and locked. -/
theorem makes_setFilter (a : AFPacketArgs) (kernel : Kernel) :
    Makes (a.setFilter kernel) a.filterCalls fun _ => kernel.TakesFilter a := by
  unfold AFPacketArgs.setFilter AFPacketArgs.filterCalls
  split
  · rename_i hsize
    exact (Makes.pure ()).imp fun _ _ hne => absurd hsize hne
  · exact Makes.syscall.bind fun _ hattach => Makes.syscall.imp fun _ hlock _ => ⟨hattach, hlock⟩

/-- With the ring mapped, one call has been made, and the kernel has answered it with an address. -/
theorem makes_mapRing (a : AFPacketArgs) (kernel : Kernel) :
    Makes (a.mapRing kernel) [.mmap a.tp3.length]
      fun ring => kernel.mmap a.tp3.length = .ok ring := by
  unfold AFPacketArgs.mapRing
  split
  · rename_i ring hmap
    exact Makes.syscall.bind fun _ _ => (Makes.pure ring).imp fun _ h => h ▸ hmap
  · -- The failed call does not come to an end.
    exact Makes.syscall.bind fun _ h => by cases h

/-- The answer that stands for `if_nametoindex`. -/
theorem ifNametoindex_answer {ifindex : Nat} :
    (if ifindex = 0 then some eINVAL else none) = none ↔ ifindex ≠ 0 := by
  split <;> simp_all

/-- The interface is there, and the socket is bound to it. -/
theorem makes_bindTo (a : AFPacketArgs) (kernel : Kernel) (ring : Nat) :
    Makes (a.bindTo kernel ring)
      [.ifNametoindex a.iface, .bind (kernel.ifNametoindex a.iface)] fun _ =>
        kernel.ifNametoindex a.iface ≠ 0 ∧ kernel.bind (kernel.ifNametoindex a.iface) = none :=
  Makes.syscall.bind fun _ hindex => Makes.syscall.imp fun _ hbind =>
    ⟨ifNametoindex_answer.mp hindex, hbind⟩

/-- The socket is in its fanout group, if it needs one. -/
theorem makes_joinFanout (a : AFPacketArgs) (kernel : Kernel) (ring : Nat) :
    Makes (a.joinFanout kernel ring) a.fanoutCalls fun _ =>
      a.fanoutSize ≠ 1 → kernel.fanout a.fanout = none := by
  unfold AFPacketArgs.joinFanout AFPacketArgs.fanoutCalls
  split
  · rename_i hsize
    exact (Makes.pure ()).imp fun _ _ hne => absurd hsize hne
  · exact Makes.syscall.imp fun _ hfanout _ => hfanout

/-- The calls of `AFPacket` that succeeds, in order. -/
def AFPacketArgs.allCalls (a : AFPacketArgs) (kernel : Kernel) : List Syscall :=
  [.packetVersion 2] ++ (a.filterCalls ++ ([.rxRing a.tp3] ++ ([.mmap a.tp3.length] ++
    ([.ifNametoindex a.iface, .bind (kernel.ifNametoindex a.iface)] ++ (a.fanoutCalls ++ [])))))

/-- At the end of the body all calls have been made, and the kernel has answered them without an
error. -/
theorem makes_setUp (a : AFPacketArgs) (kernel : Kernel) :
    Makes (a.setUp kernel) (a.allCalls kernel)
      fun ring => kernel.rxRing a.tp3 = none ∧ kernel.mmap a.tp3.length = .ok ring ∧
        ¬ kernel.FailsToJoin a := by
  refine Makes.syscall.bind fun _ _ => (makes_setFilter a kernel).bind fun _ _ =>
    Makes.syscall.bind fun _ hring => (makes_mapRing a kernel).bind fun ring hmap => ?_
  refine (makes_bindTo a kernel ring).bind fun _ hbind => (makes_joinFanout a kernel ring).bind
    fun _ hfanout => (Makes.pure ring).imp fun _ h => ?_
  refine h ▸ ⟨hring, hmap, ?_⟩
  rintro (hindex | hfails | ⟨hsize, hfails⟩)
  · exact hbind.1 hindex
  · exact hfails hbind.2
  · exact hfails (hfanout hsize)

/-- `AFPacket` that leaves `errno` at zero has set everything up. -/
theorem afPacket_ok {kernel : Kernel} {a : AFPacketArgs} (h : (afPacket kernel a).errno = 0) :
    (afPacket kernel a).calls = .socket :: a.allCalls kernel ∧ kernel.rxRing a.tp3 = none ∧
      kernel.mmap a.tp3.length = .ok (afPacket kernel a).ring := by
  unfold afPacket at h ⊢
  split at h
  · rename_i e _
    exact absurd h e.ne_zero
  · rename_i fd hfd
    -- A jump to a label has set `errno`.
    have herrno := setsErrno_setUp a kernel ⟨0, [.socket]⟩
    split at h
    · rename_i ring s hs
      obtain ⟨hcalls, hring, hmap, -⟩ := makes_setUp a kernel _ _ _ hs
      exact ⟨hcalls, hring, hmap⟩
    · rename_i err s hs
      rw [hs] at herrno
      exact absurd h herrno
    · rename_i ring err s hs
      rw [hs] at herrno
      exact absurd h herrno

/-! ### The calls of a failure -/

/-- When `f` fails it jumps to a label, and `Q` holds of the label and the calls made so far. -/
def Fails {α : Type} (f : EStateM Goto AFPacketState α) (Q : Goto → List Syscall → Prop) : Prop :=
  ∀ s label s', f s = .error label s' → ∃ calls, s'.calls = s.calls ++ calls ∧ Q label calls

/-- A constant does not fail. -/
theorem Fails.pure {α : Type} (a : α) (Q : Goto → List Syscall → Prop) : Fails (pure a) Q :=
  fun _ _ _ h => by cases h

/-- A system call that fails is the last one that was made. -/
theorem Fails.syscall {call : Syscall} {answer : Option SysErrno} {label : Goto}
    {Q : Goto → List Syscall → Prop} (h : answer ≠ none → Q label [call]) :
    Fails (syscall call answer label) Q := by
  intro s label' s' hs
  cases answer with
  | none => cases hs
  | some e =>
      cases hs
      exact ⟨[call], rfl, h nofun⟩

/-- A sequence fails in its first part, or in its second after the calls of the first. -/
theorem Fails.bind {α β : Type} {f : EStateM Goto AFPacketState α}
    {g : α → EStateM Goto AFPacketState β} {c : List Syscall} {P : α → Prop}
    {Q : Goto → List Syscall → Prop} (hf : Fails f Q) (hmakes : Makes f c P)
    (hg : ∀ a, P a → Fails (g a) fun label calls => Q label (c ++ calls)) : Fails (f >>= g) Q := by
  intro s label s'' h
  cases hfs : f s with
  | ok a s' =>
      rw [bind_ok hfs] at h
      obtain ⟨hcalls, hP⟩ := hmakes s a s' hfs
      obtain ⟨calls, hcalls', hQ⟩ := hg a hP s' label s'' h
      exact ⟨c ++ calls, by rw [hcalls', hcalls, List.append_assoc], hQ⟩
  | error l s' =>
      rw [bind_error hfs] at h
      cases h
      exact hf s label s'' hfs

/-- The parts of `AFPacket` that a call belongs to. -/
inductive Part where
  /-- The socket, its filter and its ring. -/
  | prepare
  /-- The mapping of the ring. -/
  | map
  /-- The interface and the fanout group. -/
  | join
  /-- The labels at the end. -/
  | release
  deriving DecidableEq

/-- The part of `AFPacket` in which a call is made. -/
def Syscall.part : Syscall → Part
  | .socket | .packetVersion _ | .attachFilter _ _ | .lockFilter _ | .rxRing _ => .prepare
  | .mmap _ => .map
  | .ifNametoindex _ | .bind _ | .fanout _ => .join
  | .munmap _ _ | .close _ => .release

/-- The calls for the filter come before the mapping. -/
theorem part_filterCalls (a : AFPacketArgs) : ∀ call ∈ a.filterCalls, call.part = .prepare := by
  unfold AFPacketArgs.filterCalls
  split <;> simp [Syscall.part]

/-- What has been done at a jump: to `fail1` when nothing is mapped, to `fail2` with the ring. -/
inductive Jumped (kernel : Kernel) (a : AFPacketArgs) : Goto → List Syscall → Prop
  | fail1 {ring : Nat} {err : AFPacketMsg} {calls : List Syscall} (hnot : ¬ kernel.MapsRing a)
      (hcalls : ∀ call ∈ calls, call.part = .prepare ∨
        call = .mmap a.tp3.length ∧ ∀ ring, kernel.mmap a.tp3.length ≠ .ok ring) :
      Jumped kernel a (.fail1 ring err) calls
  | fail2 {ring : Nat} {err : AFPacketMsg} {calls : List Syscall} (hmaps : kernel.MapsRing a)
      (hfails : kernel.FailsToJoin a) (hmap : kernel.mmap a.tp3.length = .ok ring)
      (hmem : .mmap a.tp3.length ∈ calls)
      (hcalls : ∀ call ∈ calls,
        call.part = .prepare ∨ call = .mmap a.tp3.length ∨ call.part = .join) :
      Jumped kernel a (.fail2 ring err) calls

/-- The calls up to the mapping. -/
def AFPacketArgs.mapCalls (a : AFPacketArgs) : List Syscall :=
  .packetVersion 2 :: (a.filterCalls ++ [.rxRing a.tp3, .mmap a.tp3.length])

/-- Up to the mapping there are only calls that prepare it, and the `mmap` itself. -/
theorem mem_mapCalls {a : AFPacketArgs} {call : Syscall} (h : call ∈ a.mapCalls) :
    call.part = .prepare ∨ call = .mmap a.tp3.length := by
  simp only [AFPacketArgs.mapCalls, List.mem_cons, List.mem_append, List.not_mem_nil,
    or_false] at h
  rcases h with rfl | hfilter | rfl | rfl
  · exact .inl rfl
  · exact .inl (part_filterCalls a call hfilter)
  · exact .inl rfl
  · exact .inr rfl

/-- A failure before the mapping. -/
theorem jumped_fail1 {kernel : Kernel} {a : AFPacketArgs} {ring : Nat} {err : AFPacketMsg}
    {calls : List Syscall} (hnot : ¬ kernel.MapsRing a)
    (h : ∀ call ∈ calls, call.part = .prepare) : Jumped kernel a (.fail1 ring err) calls :=
  .fail1 hnot fun call hcall => .inl (h call hcall)

/-- A failure behind the mapping. -/
theorem jumped_fail2 {kernel : Kernel} {a : AFPacketArgs} {ring : Nat} {err : AFPacketMsg}
    {calls : List Syscall} (hmaps : kernel.MapsRing a) (hfails : kernel.FailsToJoin a)
    (hmap : kernel.mmap a.tp3.length = .ok ring) (hjoin : ∀ call ∈ calls, call.part = .join) :
    Jumped kernel a (.fail2 ring err) (a.mapCalls ++ calls) := by
  refine .fail2 hmaps hfails hmap (List.mem_append_left _ ?_) fun call hcall => ?_
  · simp [AFPacketArgs.mapCalls]
  · rcases List.mem_append.mp hcall with hcall | hcall
    · rcases mem_mapCalls hcall with hpart | heq
      · exact .inl hpart
      · exact .inr (.inl heq)
    · exact .inr (.inr (hjoin call hcall))

/-- A filter that the kernel does not take. -/
theorem fails_setFilter (a : AFPacketArgs) (kernel : Kernel) :
    Fails (a.setFilter kernel) fun label calls =>
      Jumped kernel a label ([.packetVersion 2] ++ calls) := by
  unfold AFPacketArgs.setFilter
  split
  · exact .pure () _
  · rename_i hsize
    refine .bind (.syscall fun hattach => jumped_fail1 ?_ ?_) Makes.syscall fun _ _ =>
      .syscall fun hlock => jumped_fail1 ?_ ?_
    · exact fun hmaps => hattach (hmaps.filter hsize).1
    · simp [Syscall.part]
    · exact fun hmaps => hlock (hmaps.filter hsize).2
    · simp [Syscall.part]

/-- A ring that cannot be mapped. -/
theorem fails_mapRing (a : AFPacketArgs) (kernel : Kernel) :
    Fails (a.mapRing kernel) fun label calls =>
      Jumped kernel a label
        ([.packetVersion 2] ++ (a.filterCalls ++ ([.rxRing a.tp3] ++ calls))) := by
  unfold AFPacketArgs.mapRing
  split
  · exact .bind (.syscall fun h => absurd rfl h) Makes.syscall fun _ _ => .pure _ _
  · rename_i e hmap
    have hfailed : ∀ ring, kernel.mmap a.tp3.length ≠ .ok ring := by simp [hmap]
    refine .bind (.syscall fun _ => .fail1 ?_ fun call hcall => ?_) Makes.syscall
      fun _ _ => .pure _ _
    · rintro ⟨-, -, -, ring, hring⟩
      exact hfailed ring hring
    · have hcall' : call ∈ a.mapCalls := by simpa [AFPacketArgs.mapCalls] using hcall
      rcases mem_mapCalls hcall' with hpart | heq
      · exact .inl hpart
      · exact .inr ⟨heq, hfailed⟩

/-- An interface that is not there, or to which the socket cannot be bound. -/
theorem fails_bindTo (a : AFPacketArgs) (kernel : Kernel) {ring : Nat}
    (hmaps : kernel.MapsRing a) (hmap : kernel.mmap a.tp3.length = .ok ring) :
    Fails (a.bindTo kernel ring) fun label calls =>
      Jumped kernel a label (a.mapCalls ++ calls) := by
  refine .bind (.syscall fun hindex => jumped_fail2 hmaps (.inl ?_) hmap ?_) Makes.syscall
    fun _ _ => .syscall fun hbind => jumped_fail2 hmaps (.inr (.inl hbind)) hmap ?_
  · by_contra hne
    exact hindex (ifNametoindex_answer.mpr hne)
  all_goals simp [Syscall.part]

/-- A fanout group that does not take the socket. -/
theorem fails_joinFanout (a : AFPacketArgs) (kernel : Kernel) {ring : Nat}
    (hmaps : kernel.MapsRing a) (hmap : kernel.mmap a.tp3.length = .ok ring) :
    Fails (a.joinFanout kernel ring) fun label calls =>
      Jumped kernel a label (a.mapCalls ++ ([.ifNametoindex a.iface,
        .bind (kernel.ifNametoindex a.iface)] ++ calls)) := by
  unfold AFPacketArgs.joinFanout
  split
  · exact .pure () _
  · rename_i hsize
    refine .syscall fun hfanout => jumped_fail2 hmaps (.inr (.inr ⟨hsize, hfanout⟩)) hmap ?_
    simp [Syscall.part]

/-- What has been done when `AFPacket` jumps to one of its labels. -/
theorem jumps_setUp (a : AFPacketArgs) (kernel : Kernel) :
    Fails (a.setUp kernel) (Jumped kernel a) := by
  refine .bind (.syscall fun hversion => jumped_fail1 (fun hmaps => hversion hmaps.packetVersion)
      (by simp [Syscall.part])) Makes.syscall fun _ hversion =>
    .bind (fails_setFilter a kernel) (makes_setFilter a kernel) fun _ hfilter =>
    .bind (.syscall fun hring => jumped_fail1 (fun hmaps => hring hmaps.rxRing) ?_)
      Makes.syscall fun _ hring =>
    .bind (fails_mapRing a kernel) (makes_mapRing a kernel) fun ring hmap => ?_
  · intro call hcall
    simp only [List.mem_append, List.mem_singleton] at hcall
    rcases hcall with rfl | hcall | rfl
    · rfl
    · exact part_filterCalls a call hcall
    · rfl
  · have hmaps : kernel.MapsRing a := ⟨hversion, hfilter, hring, ring, hmap⟩
    have hcalls : ∀ calls, [.packetVersion 2] ++ (a.filterCalls ++ ([.rxRing a.tp3] ++
        ([.mmap a.tp3.length] ++ calls))) = a.mapCalls ++ calls := by
      simp [AFPacketArgs.mapCalls]
    simp only [hcalls]
    exact .bind (fails_bindTo a kernel hmaps hmap) (makes_bindTo a kernel ring) fun _ _ =>
      .bind (fails_joinFanout a kernel hmaps hmap) (makes_joinFanout a kernel ring)
        fun _ _ => .pure _ _

end Testimony.Daemon
