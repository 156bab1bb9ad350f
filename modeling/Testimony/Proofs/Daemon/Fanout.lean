import Testimony.Proofs.Daemon.Ids

/-!
# `Testimony.Proofs.Daemon.Fanout`: fanout groups

Every entry of a configuration gets an id of its own. The kernel only sees the low 16 bits.
`groups_distinct_iff` says for which configurations the entries still get groups of their own.
-/

set_option autoImplicit false

namespace Testimony.Daemon

open Lib

/-! ### The sockets of an entry -/

/-- The fanout group a call asks for: the low 16 bits of its argument. -/
def Syscall.group : Syscall → Option UInt16
  | .fanout arg => some arg.toUInt32.toUInt16
  | _ => none

/-- The fanout groups a socket was put into. -/
def Socket.groups (s : Socket) : List UInt16 := s.calls.filterMap Syscall.group

/-- The group of an id. -/
def groupOf (id : Int) : UInt16 := ⟨BitVec.ofInt 16 id⟩

/-- Two sockets are in one fan-out group exactly if their ids agree in the lowest sixteen bits. -/
theorem groupOf_inj {id id' : Int} : groupOf id = groupOf id' ↔ 65536 ∣ id - id' := by
  rw [← ofInt16_inj, groupOf, groupOf, UInt16.ofBitVec.injEq]

/-- The type of the fanout does not reach into the group. -/
theorem group_fanout (sc : ConfigEntry) (id : Int) (filters : List SockFilter) :
    (sc.args id filters).fanout.toUInt32.toUInt16 = groupOf id := by
  have hpack := setWidth_pack (BitVec.ofInt 32 id) (BitVec.ofInt 32 sc.fanoutType)
  rw [setWidth_ofInt] at hpack
  exact UInt16.toBitVec_inj.mp hpack

/-- A socket joins the group of its id, unless it is the only socket of its entry. -/
theorem groups_of_newSocket {kernel : Kernel} {compile : Option (List SockFilter)}
    {sc : ConfigEntry} {id : Int} {num : Nat} {s : Socket}
    (h : newSocket kernel compile sc id num = .ok s) :
    s.groups = if Int32.ofInt sc.fanoutSize = 1 then [] else [groupOf id] := by
  obtain ⟨-, -, -, filters, -, hcalls, -⟩ := newSocket_ok h
  have hfilter : (sc.args id filters).filterCalls.filterMap Syscall.group = [] := by
    unfold AFPacketArgs.filterCalls
    split <;> rfl
  have hfanout : (sc.args id filters).fanoutCalls.filterMap Syscall.group =
      if Int32.ofInt sc.fanoutSize = 1 then [] else [groupOf id] := by
    unfold AFPacketArgs.fanoutCalls
    show (if Int32.ofInt sc.fanoutSize = 1 then _ else _ : List Syscall).filterMap _ = _
    split
    · rfl
    · rw [← group_fanout sc id filters]
      rfl
  rw [Socket.groups, hcalls, AFPacketArgs.allCalls, List.filterMap_cons_none rfl]
  simp only [List.filterMap_append, hfilter, hfanout, List.append_nil]
  rfl

/-- An entry has as many sockets as its `FanoutSize` says, all in the group of its id. -/
theorem groups_of_newSockets {env : Env} {sc : ConfigEntry} {id : Int} {socks : List Socket}
    (h : newSockets env sc id = .ok socks) : socks.length = sc.fanoutSize.toNat ∧
      ∀ s ∈ socks, s.groups = if Int32.ofInt sc.fanoutSize = 1 then [] else [groupOf id] := by
  obtain ⟨hlen, hmem⟩ := mapM_ok h
  constructor
  · rw [hlen, List.length_range]
  · intro s hs
    obtain ⟨i, -, hi⟩ := hmem s hs
    split at hi
    · rename_i sock hsock
      cases hi
      exact groups_of_newSocket hsock
    · cases hi

/-! ### Groups of their own -/

/-- The entry's sockets join a fanout group. `AFPacket` gets the `FanoutSize` as a C `int`. -/
def ConfigEntry.FansOut (sc : ConfigEntry) : Prop :=
  0 < sc.fanoutSize ∧ Int32.ofInt sc.fanoutSize ≠ 1

/-- Two comparisons decide it. -/
instance (sc : ConfigEntry) : Decidable sc.FansOut := inferInstanceAs (Decidable (_ ∧ _))

/-- The sockets of any two entries with a `FanoutSize` other than one are in different groups. -/
def GroupsDistinct (t : List ConfigEntry) (all : List (List Socket)) : Prop :=
  (t.zip all).Pairwise fun p q => p.1.fanoutSize ≠ 1 → q.1.fanoutSize ≠ 1 →
    ∀ s ∈ p.2, ∀ s' ∈ q.2, ∀ g ∈ s.groups, ∀ g' ∈ s'.groups, g ≠ g'

/-- No two entries whose sockets fan out have ids that differ by a multiple of `2 ^ 16`. -/
def IdsApart (t : List ConfigEntry) : Prop :=
  (t.zip (intendedIDs t)).Pairwise fun p q => p.1.FansOut → q.1.FansOut → ¬ 65536 ∣ p.2 - q.2

/-- Two entries, each with its id and its sockets. -/
theorem groups_ne_iff {env : Env} {sc sc' : ConfigEntry} {id id' : Int} {socks socks' : List Socket}
    (h : newSockets env sc id = .ok socks) (h' : newSockets env sc' id' = .ok socks') :
    (sc.fanoutSize ≠ 1 → sc'.fanoutSize ≠ 1 →
      ∀ s ∈ socks, ∀ s' ∈ socks', ∀ g ∈ s.groups, ∀ g' ∈ s'.groups, g ≠ g') ↔
    (sc.FansOut → sc'.FansOut → ¬ 65536 ∣ id - id') := by
  obtain ⟨hlen, hgroups⟩ := groups_of_newSockets h
  obtain ⟨hlen', hgroups'⟩ := groups_of_newSockets h'
  constructor
  · rintro hne ⟨hpos, hout⟩ ⟨hpos', hout'⟩
    -- Both entries have a socket, and it is in the group of the id.
    obtain ⟨s, hs⟩ := List.exists_mem_of_length_pos (l := socks) (by omega)
    obtain ⟨s', hs'⟩ := List.exists_mem_of_length_pos (l := socks') (by omega)
    have hone : sc.fanoutSize ≠ 1 := by
      intro heq
      rw [heq] at hout
      exact hout rfl
    have hone' : sc'.fanoutSize ≠ 1 := by
      intro heq
      rw [heq] at hout'
      exact hout' rfl
    have hg := hne hone hone' s hs s' hs' (groupOf id) (by rw [hgroups s hs, if_neg hout]; simp)
      (groupOf id') (by rw [hgroups' s' hs', if_neg hout']; simp)
    rwa [Ne, groupOf_inj] at hg
  · intro hapart _ _ s hs s' hs' g hg g' hg'
    have hpos := List.length_pos_of_mem hs
    have hpos' := List.length_pos_of_mem hs'
    rw [hgroups s hs] at hg
    rw [hgroups' s' hs'] at hg'
    split at hg
    · cases hg
    · rename_i hout
      split at hg'
      · cases hg'
      · rename_i hout'
        rw [List.mem_singleton.mp hg, List.mem_singleton.mp hg', Ne, groupOf_inj]
        exact hapart ⟨by omega, hout⟩ ⟨by omega, hout'⟩

/-- What holds of every entry with its sockets, said of every entry with its id. -/
theorem Served.forall_iff {env : Env} {t : List ConfigEntry} {ids : List Int}
    {all : List (List Socket)} (h : Served env t ids all) {P : ConfigEntry × List Socket → Prop}
    {Q : ConfigEntry × Int → Prop}
    (hPQ : ∀ sc id socks, newSockets env sc id = .ok socks → (P (sc, socks) ↔ Q (sc, id))) :
    (∀ p ∈ t.zip all, P p) ↔ ∀ q ∈ t.zip ids, Q q := by
  induction h with
  | nil => simp
  | cons hsocks hrest ih =>
      rw [List.zip_cons_cons, List.zip_cons_cons, List.forall_mem_cons, List.forall_mem_cons, ih,
        hPQ _ _ _ hsocks]

/-- The groups of two entries are distinct exactly if their ids differ modulo `2 ^ 16`. -/
theorem Served.pairwise_iff {env : Env} {t : List ConfigEntry} {ids : List Int}
    {all : List (List Socket)} (h : Served env t ids all) :
    GroupsDistinct t all ↔
      (t.zip ids).Pairwise fun p q => p.1.FansOut → q.1.FansOut → ¬ 65536 ∣ p.2 - q.2 := by
  induction h with
  | nil => simp [GroupsDistinct]
  | cons hsocks hrest ih =>
      rw [GroupsDistinct, List.zip_cons_cons, List.zip_cons_cons, List.pairwise_cons,
        List.pairwise_cons]
      refine and_congr ?_ ih
      exact hrest.forall_iff fun sc id socks hnew => groups_ne_iff hsocks hnew

/-- For a configuration that `RunTestimony` accepts, any two different entries with a
`FanoutSize` other than one get different fanout groups exactly when no two ids of entries that
fan out differ by a multiple of `2 ^ 16`. -/
theorem groups_distinct_iff (env : Env) (t : List ConfigEntry) (all : List (List Socket))
    (h : runTestimony env t = .ok all) : GroupsDistinct t all ↔ IdsApart t :=
  (served_of_runTestimony h).pairwise_iff

/-- It is a condition on the pairs of a list. -/
instance (t : List ConfigEntry) : Decidable (IdsApart t) :=
  inferInstanceAs (Decidable (List.Pairwise _ _))

/-- A system in which every call succeeds, apart from one for a ring without blocks. -/
def quietEnv : Env where
  kernel := fun _ _ _ => quietKernel
  compile := fun _ _ => none
  listens := fun _ => true

/-- The groups of the sockets of each entry. -/
def allGroups (all : List (List Socket)) : List (List (List UInt16)) :=
  all.map fun socks => socks.map Socket.groups

/-- An entry without an id in front of one with the first id, and a large id behind. -/
theorem groups_distinct_iff_mixed :
    let t := [twoSockets "a" 0, twoSockets "b" 1, twoSockets "c" 70000]
    ∃ all, runTestimony quietEnv t = .ok all ∧
      allGroups all = [[[2], [2]], [[1], [1]], [[4464], [4464]]] ∧ GroupsDistinct t all := by
  obtain ⟨all, hall, hgroups⟩ := ok_of_toOption (f := allGroups) (show (runTestimony quietEnv
      [twoSockets "a" 0, twoSockets "b" 1, twoSockets "c" 70000]).toOption.map allGroups =
    some [[[2], [2]], [[1], [1]], [[4464], [4464]]] by decide +kernel)
  exact ⟨all, hall, hgroups, (groups_distinct_iff quietEnv _ all hall).mpr (by decide)⟩

/-- The ids 1 and 65537 are both accepted, and the sockets of the two entries share a group. -/
theorem group_shared :
    let t := [twoSockets "a" 1, twoSockets "b" 65537]
    ∃ all, runTestimony quietEnv t = .ok all ∧ allGroups all = [[[1], [1]], [[1], [1]]] ∧
      ¬ GroupsDistinct t all := by
  obtain ⟨all, hall, hgroups⟩ := ok_of_toOption (f := allGroups) (show (runTestimony quietEnv
      [twoSockets "a" 1, twoSockets "b" 65537]).toOption.map allGroups =
    some [[[1], [1]], [[1], [1]]] by decide +kernel)
  refine ⟨all, hall, hgroups, fun hdistinct => ?_⟩
  have happart := (served_of_runTestimony hall).pairwise_iff.mp hdistinct
  exact absurd happart (show ¬ IdsApart _ by decide)

end Testimony.Daemon
