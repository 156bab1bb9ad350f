import Testimony.GoClient.Lifetime
import Testimony.Proofs.Client.Lifetime

/-!
# `Testimony.Proofs.GoClient.Lifetime`: what the Go client releases

One call of `Close` takes the ring, the descriptor and the connection, each if the kernel lets it
go (`close_state`). Called again, it tries the ring and the descriptor again, but not the connection
(`mem_closeAll`).

`leaves_nothing_iff` says for which runs from `Connect` to `Close` the process is left with no
descriptor and no mapping: the first `Close` has got rid of the connection, and every descriptor
that arrived is the one that was taken, which some `Close` has got rid of, and is not zero. In
contrast to the C client the descriptor of the ring is closed. But the file of the client's socket
is left in any case, since nobody removes it.
-/

set_option autoImplicit false

namespace Testimony.GoClient

open Lib
open Client (Resource Process CloseAnswer)

/-- The descriptor is gone, whatever `close` returns. -/
def Releases : CloseAnswer → Prop
  | .ok => True
  | .error _ released => released = true

/-- The answers are finitely many. -/
instance (answer : CloseAnswer) : Decidable (Releases answer) := by
  unfold Releases
  split <;> infer_instance

/-! ### One call of `Close` -/

/-- What comes of a `close`. -/
theorem closeFd_cases (answer : CloseAnswer) (fd : Nat) (p : Process) :
    (Client.closeFd answer fd p = .ok () (p.erase (.fd fd)) ∧ Releases answer) ∨
    ∃ e, Client.closeFd answer fd p =
      .error e (if Releases answer then p.erase (.fd fd) else p) := by
  by_cases hin : Resource.fd fd ∈ p
  · cases answer with
    | ok => exact .inl ⟨by simp [Client.closeFd, hin], trivial⟩
    | error e released =>
        refine .inr ⟨.sys e, ?_⟩
        cases released <;> simp [Client.closeFd, hin, Releases]
  · refine .inr ⟨Client.ebadf, ?_⟩
    rw [Finset.erase_eq_of_notMem hin, ite_self]
    simp [Client.closeFd, hin]

variable (env : CloseEnv) (t : Opened) (p : Process)

/-- What `closeRing` leaves behind: the mapping is gone if the kernel unmaps it, and the rest is
untouched. -/
theorem closeRing_state :
    (∀ r, r ∈ (t.closeRing env p).2.2 ↔
      r ∈ p ∧ ¬ ∃ m, t.ring = some m ∧ env.munmap = none ∧ r = .mapping m.1 m.2) ∧
    (t.closeRing env p).2.1.ring = (if env.munmap = none then none else t.ring) ∧
    (t.closeRing env p).2.1.fd = t.fd ∧ (t.closeRing env p).2.1.c = t.c := by
  unfold Opened.closeRing
  cases hring : t.ring with
  | none => simp [hring]
  | some m => cases hanswer : env.munmap <;> simp [Client.munmap, and_comm, hring]

/-- A descriptor that cannot be closed stays in its field. -/
theorem closeFd_state :
    (∀ r, r ∈ (t.closeFd env p).2.2 ↔
      r ∈ p ∧ ¬ (t.fd ≠ 0 ∧ Releases env.close ∧ r = .fd t.fd)) ∧
    (t.closeFd env p).2.1.ring = t.ring ∧ (t.closeFd env p).2.1.c = t.c ∧
    ((t.closeFd env p).2.1.fd = t.fd ∨
      (t.closeFd env p).2.1.fd = 0 ∧ Resource.fd t.fd ∉ (t.closeFd env p).2.2) := by
  unfold Opened.closeFd
  split
  · rename_i hzero
    simp [hzero]
  · rename_i hne
    rcases closeFd_cases env.close t.fd p with ⟨hok, hrel⟩ | ⟨e, herr⟩
    · rw [hok]
      exact ⟨fun r => by simp [hne, hrel, and_comm], rfl, rfl, .inr ⟨rfl, by simp⟩⟩
    · rw [herr]
      refine ⟨fun r => ?_, rfl, rfl, .inl rfl⟩
      by_cases hrel : Releases env.close <;> simp [hne, hrel, and_comm]

/-- The connection is closed once. -/
theorem closeConn_state :
    (∀ r, r ∈ (t.closeConn env p).2.2 ↔
      r ∈ p ∧ ¬ ∃ n, t.c = some ⟨n, false⟩ ∧ Releases env.closeConn ∧ r = .fd n) ∧
    (t.closeConn env p).2.1.ring = t.ring ∧ (t.closeConn env p).2.1.fd = t.fd ∧
    ∀ n, (t.closeConn env p).2.1.c ≠ some ⟨n, false⟩ := by
  unfold Opened.closeConn
  cases hc : t.c with
  | none => simp [hc]
  | some c =>
      obtain ⟨fd, closed⟩ := c
      cases closed with
      | true => simp [hc]
      | false =>
          rcases closeFd_cases env.closeConn fd p with ⟨hok, hrel⟩ | ⟨e, herr⟩
          · simp only [hok, Bool.false_eq_true, if_false]
            refine ⟨fun r => ?_, trivial, trivial, nofun⟩
            simp [hrel, and_comm]
          · simp only [herr, Bool.false_eq_true, if_false]
            refine ⟨fun r => ?_, trivial, trivial, by simp⟩
            split
            · rename_i hrel
              simp [hrel, and_comm]
            · rename_i hrel
              simp [hrel]

/-- What a call takes from the process: the ring, the descriptor and the connection, each if the
kernel lets it go. A field whose resource is still there is as it was, but for the connection. -/
theorem close_state :
    (∀ r, r ∈ (t.close env p).2.2 ↔ r ∈ p ∧
      ¬ (∃ m, t.ring = some m ∧ env.munmap = none ∧ r = .mapping m.1 m.2) ∧
      ¬ (t.fd ≠ 0 ∧ Releases env.close ∧ r = .fd t.fd) ∧
      ¬ ∃ n, t.c = some ⟨n, false⟩ ∧ Releases env.closeConn ∧ r = .fd n) ∧
    (t.close env p).2.1.ring = (if env.munmap = none then none else t.ring) ∧
    ((t.close env p).2.1.fd = t.fd ∨
      (t.close env p).2.1.fd = 0 ∧ Resource.fd t.fd ∉ (t.close env p).2.2) ∧
    ∀ n, (t.close env p).2.1.c ≠ some ⟨n, false⟩ := by
  obtain ⟨hmem₁, hring₁, hfd₁, hc₁⟩ := closeRing_state env t p
  generalize hr₁ : (t.closeRing env p).2 = r₁ at hmem₁ hring₁ hfd₁ hc₁
  obtain ⟨hmem₂, hring₂, hc₂, hfd₂⟩ := closeFd_state env r₁.1 r₁.2
  generalize hr₂ : (r₁.1.closeFd env r₁.2).2 = r₂ at hmem₂ hring₂ hc₂ hfd₂
  obtain ⟨hmem₃, hring₃, hfd₃, hc₃⟩ := closeConn_state env r₂.1 r₂.2
  have hclose : (t.close env p).2 = (r₂.1.closeConn env r₂.2).2 := by
    rw [← hr₂, ← hr₁]
    rfl
  rw [hfd₁] at hmem₂ hfd₂
  rw [hc₂, hc₁] at hmem₃
  rw [hclose]
  refine ⟨fun r => ?_, by rw [hring₃, hring₂, hring₁], ?_, hc₃⟩
  · rw [hmem₃, hmem₂, hmem₁]
    tauto
  · rcases hfd₂ with hfd₂ | ⟨hfd₂, hnot⟩
    · exact .inl (hfd₃.trans hfd₂)
    · exact .inr ⟨hfd₃.trans hfd₂, fun hin => hnot ((hmem₃ _).mp hin).1⟩

/-! ### Several calls -/

/-- The calls of `Close` get rid of the mapping `m`, if it is the ring. -/
def Unmaps (envs : List CloseEnv) (t : Opened) (r : Resource) : Prop :=
  ∃ m, t.ring = some m ∧ (∃ env ∈ envs, env.munmap = none) ∧ r = .mapping m.1 m.2

/-- They get rid of the descriptor of the ring. Zero is not a descriptor to `Close`. -/
def Closes (envs : List CloseEnv) (t : Opened) (r : Resource) : Prop :=
  t.fd ≠ 0 ∧ (∃ env ∈ envs, Releases env.close) ∧ r = .fd t.fd

/-- The first of them gets rid of the connection. -/
def HangsUp (envs : List CloseEnv) (t : Opened) (r : Resource) : Prop :=
  ∃ n, t.c = some ⟨n, false⟩ ∧ (∃ env, envs.head? = some env ∧ Releases env.closeConn) ∧ r = .fd n

/-- What is left after calls of `Close` is what none of them has unmapped or closed. -/
theorem mem_closeAll (envs : List CloseEnv) : ∀ (t : Opened) (p : Process) (r : Resource),
    r ∈ closeAll envs t p ↔
      r ∈ p ∧ ¬ Unmaps envs t r ∧ ¬ Closes envs t r ∧ ¬ HangsUp envs t r := by
  induction envs with
  | nil => simp [closeAll, Unmaps, Closes, HangsUp]
  | cons env envs ih =>
      intro t p r
      obtain ⟨hmem, hring, hfd, hc⟩ := close_state env t p
      have hall : closeAll (env :: envs) t p =
          closeAll envs (t.close env p).2.1 (t.close env p).2.2 := rfl
      generalize (t.close env p).2 = next at hmem hring hfd hc hall
      obtain ⟨t', p'⟩ := next
      dsimp only at hmem hring hfd hc hall
      have hhang : ¬ HangsUp envs t' r := by
        rintro ⟨n, hn, -⟩
        exact hc n hn
      have hunmaps : Unmaps (env :: envs) t r ↔
          (∃ m, t.ring = some m ∧ env.munmap = none ∧ r = .mapping m.1 m.2) ∨ Unmaps envs t' r := by
        unfold Unmaps
        rw [hring]
        by_cases hnone : env.munmap = none <;> simp [hnone]
      have hcloses : r ∈ p' → (Closes (env :: envs) t r ↔
          (t.fd ≠ 0 ∧ Releases env.close ∧ r = .fd t.fd) ∨ Closes envs t' r) := by
        intro hr
        unfold Closes
        rcases hfd with hfd | ⟨hfd, hnot⟩
        · rw [hfd]
          simp only [List.mem_cons, exists_eq_or_imp]
          tauto
        · -- The field is zero only when the descriptor is gone.
          have hne : r ≠ .fd t.fd := fun heq => hnot (heq ▸ hr)
          simp [hfd, hne]
      have hhangs : HangsUp (env :: envs) t r ↔
          ∃ n, t.c = some ⟨n, false⟩ ∧ Releases env.closeConn ∧ r = .fd n := by
        simp [HangsUp]
      rw [hall, ih, hunmaps, hhangs]
      constructor
      · rintro ⟨hr, hu, hcl, -⟩
        obtain ⟨hin, hm, hf, hn⟩ := (hmem r).mp hr
        exact ⟨hin, fun h => h.elim hm hu, fun h => ((hcloses hr).mp h).elim hf hcl, hn⟩
      · rintro ⟨hr, hu, hcl, hh⟩
        have hr' : r ∈ p' := by
          refine (hmem r).mpr ⟨hr, fun h => hu (.inl h), fun h => hcl ?_, hh⟩
          exact ⟨h.1, ⟨env, List.mem_cons_self .., h.2.1⟩, h.2.2⟩
        rw [hcloses hr'] at hcl
        exact ⟨hr', fun h => hu (.inr h), fun h => hcl (.inr h), hhang⟩

/-! ### `Init` -/

/-- The descriptors that a call of `Init` brings into the process. -/
def InitCallEnv.received (env : InitCallEnv) (p : Process) : List Nat :=
  match env.send with
  | some _ => []
  | none => ((env.readMsg p).toOption.map Arrived.fds).getD []

/-- A descriptor that the kernel gives out is not in use. -/
theorem InitCallEnv.received_fresh (env : InitCallEnv) (p : Process) {fd : Nat}
    (h : fd ∈ env.received p) : Resource.fd fd ∉ p := by
  unfold InitCallEnv.received at h
  cases hsend : env.send with
  | some e => simp [hsend] at h
  | none =>
      cases hread : env.readMsg p with
      | error e => simp [hsend, hread, Except.toOption] at h
      | ok arrived =>
          simp only [hsend, hread, Except.toOption, Option.map_some, Option.getD_some] at h
          exact arrived.fresh fd h

/-- A `Conn` between `Connect` and `Init`. -/
def Opened.fresh (conn : Conn) (fd : Nat) : Opened := ⟨conn, some ⟨fd, false⟩, 0, none⟩

/-- What `Init` has done to a new `Conn` before its deferred function runs. -/
structure Initiated (env : InitCallEnv) (conn : Conn) (fd : Nat) (p : Process)
    (r : Option InitError × Opened × Process) : Prop where
  c_eq : r.2.1.c = some ⟨fd, false⟩
  mem : ∀ x, x ∈ r.2.2 ↔ x ∈ p ∨ (∃ n ∈ env.received p, x = .fd n) ∨
    ∃ m, r.2.1.ring = some m ∧ x = .mapping m.1 m.2
  ring_fresh : ∀ m, r.2.1.ring = some m → Resource.mapping m.1 m.2 ∉ p
  ring_iff : r.1 = none ↔ r.2.1.ring ≠ none
  fd_mem : r.2.1.fd ≠ 0 → r.2.1.fd ∈ env.received p

/-- The descriptor that `Init` takes is one of those that have arrived. -/
theorem receiveFd_mem {p : Process} (arrived : Arrived p) {fd : Nat}
    (h : receiveFd arrived.msg = .ok fd) : fd ∈ arrived.fds := by
  simp only [receiveFd] at h
  split at h
  · cases h
  · split at h
    · cases h
    · split at h
      · cases h
      · rename_i hmsgs
        cases h
        rw [arrived.fds_eq _ hmsgs]
        simp [Except.toOption]
      all_goals cases h

/-- The ring is mapped, or it is not. -/
theorem map_cases (env : InitCallEnv) (t : Opened) (p : Process) :
    (∃ e, t.map env p = (some e, t, p)) ∨
    ∃ m : Nat × Nat, Resource.mapping m.1 m.2 ∉ p ∧
      t.map env p = (none, { t with ring := some m }, insert (.mapping m.1 m.2) p) := by
  unfold Opened.map
  by_cases hlen : mulInt t.conn.blockSize t.conn.numBlocks ≤ 0
  · exact .inl ⟨_, if_pos hlen⟩
  · simp only [if_neg hlen]
    cases env.mmap p (mulInt t.conn.blockSize t.conn.numBlocks).toNat with
    | error e => exact .inl ⟨_, rfl⟩
    | ok addr => exact .inr ⟨(addr.val, _), addr.2, rfl⟩

/-- What `Init` does before its deferred function is as `Initiated` says. -/
theorem initiated_initBody (env : InitCallEnv) (conn : Conn) (fd : Nat) (p : Process) :
    Initiated env conn fd p ((Opened.fresh conn fd).initBody env p) := by
  unfold Opened.initBody
  cases hsend : env.send with
  | some e =>
      refine ⟨rfl, fun x => ?_, nofun, by simp [Opened.fresh], fun h => absurd rfl h⟩
      simp [InitCallEnv.received, hsend, Opened.fresh]
  | none =>
      cases hread : env.readMsg p with
      | error e =>
          refine ⟨rfl, fun x => ?_, nofun, by simp [Opened.fresh], fun h => absurd rfl h⟩
          simp [InitCallEnv.received, hsend, hread, Except.toOption, Opened.fresh]
      | ok arrived =>
          have hreceived : env.received p = arrived.fds := by
            simp [InitCallEnv.received, hsend, hread, Except.toOption]
          have hmem : ∀ x, x ∈ p.addFds arrived.fds ↔ x ∈ p ∨ ∃ n ∈ env.received p, x = .fd n := by
            intro x
            rw [hreceived]
            exact Client.mem_addFds
          cases hfd : receiveFd arrived.msg with
          | error e =>
              simp only [hfd]
              refine ⟨rfl, fun x => ?_, nofun, by simp [Opened.fresh], fun h => absurd rfl h⟩
              simp [hmem, Opened.fresh]
          | ok n =>
              have hn : n ∈ env.received p := hreceived ▸ receiveFd_mem arrived hfd
              simp only [hfd]
              rcases map_cases env { Opened.fresh conn fd with fd := n } (p.addFds arrived.fds) with
                ⟨e, heq⟩ | ⟨m, hm, heq⟩
              · rw [heq]
                refine ⟨rfl, fun x => ?_, nofun, by simp [Opened.fresh], fun _ => hn⟩
                simp [hmem, Opened.fresh]
              · rw [heq]
                refine ⟨rfl, fun x => ?_, ?_, by simp, fun _ => hn⟩
                · rw [Finset.mem_insert, hmem]
                  constructor
                  · rintro (rfl | hin | hin)
                    · exact .inr (.inr ⟨m, rfl, rfl⟩)
                    · exact .inl hin
                    · exact .inr (.inl hin)
                  · rintro (hin | hin | ⟨m', ⟨⟩, rfl⟩)
                    · exact .inr (.inl hin)
                    · exact .inr (.inr hin)
                    · exact .inl rfl
                · rintro m' ⟨⟩
                  exact fun hin => hm ((hmem _).mpr (.inl hin))

/-! ### From `Connect` to `Close` -/

/-- The calls of `Close` in a run: those of the program, behind the one of an `Init` that fails. -/
def Lifetime.allCloses (l : Lifetime) (err : Option InitError) : List CloseEnv :=
  if err = none then l.closes else l.init.close :: l.closes

/-- The descriptor of a connected socket. -/
def Dialed.fd? {w : World} {name : Nat} : Dialed w name → Option Nat
  | .connected fd _ _ => some fd
  | .refused _ _ | .unbound _ => none

/-- A run in which every descriptor and mapping is released. Behind a `Connect` that fails, that is
up to its own `Close`. Otherwise the first `Close` has to get rid of the connection, and some
`Close` of the ring, if there is one. A descriptor that has arrived has to be the one `Init` has
taken, and not zero, and some `Close` has to get rid of it. -/
def Lifetime.Clean (l : Lifetime) (w : World) : Prop :=
  ∀ fd, (l.connect.dial w).fd? = some fd →
    (∀ e segs, GoClient.connect l.connect.segs = .error (.fail e) segs →
      Releases l.connect.close.closeConn) ∧
    ∀ conn segs, GoClient.connect l.connect.segs = .ok conn segs →
      let p := insert (Resource.fd fd) w.p
      let done := (Opened.fresh conn fd).initBody l.init p
      (∀ n ∈ l.init.received p, n = done.2.1.fd ∧ n ≠ 0 ∧
        ∃ env ∈ l.allCloses done.1, Releases env.close) ∧
      (done.1 = none → ∃ env ∈ l.allCloses done.1, env.munmap = none) ∧
      ∃ env, (l.allCloses done.1).head? = some env ∧ Releases env.closeConn

/-- What the calls of `Close` leave behind an `Init`. -/
theorem closeAll_subset_iff {env : InitCallEnv} {conn : Conn} {fd : Nat} {p : Process}
    (hfd : Resource.fd fd ∉ p) {r : Option InitError × Opened × Process}
    (h : Initiated env conn fd (insert (.fd fd) p) r) (envs : List CloseEnv) :
    closeAll envs r.2.1 r.2.2 ⊆ p ↔
      (∀ n ∈ env.received (insert (.fd fd) p), n = r.2.1.fd ∧ n ≠ 0 ∧
        ∃ env ∈ envs, Releases env.close) ∧
      (r.1 = none → ∃ env ∈ envs, env.munmap = none) ∧
      ∃ env, envs.head? = some env ∧ Releases env.closeConn := by
  have hfresh : ∀ n ∈ env.received (insert (.fd fd) p), n ≠ fd ∧ Resource.fd n ∉ p := by
    intro n hn
    have hnot := env.received_fresh _ hn
    rw [Finset.mem_insert, not_or] at hnot
    exact ⟨fun heq => hnot.1 (by rw [heq]), hnot.2⟩
  -- What is new and not in the process at the end has been released by one of the calls.
  have hgone : ∀ x, x ∉ p → x ∈ r.2.2 → closeAll envs r.2.1 r.2.2 ⊆ p →
      Unmaps envs r.2.1 x ∨ Closes envs r.2.1 x ∨ HangsUp envs r.2.1 x := by
    intro x hx hin hsub
    by_contra hno
    simp only [not_or] at hno
    exact hx (hsub ((mem_closeAll envs _ _ x).mpr ⟨hin, hno⟩))
  constructor
  · intro hsub
    refine ⟨fun n hn => ?_, fun hnone => ?_, ?_⟩
    · obtain ⟨hne, hnot⟩ := hfresh n hn
      rcases hgone (.fd n) hnot ((h.mem _).mpr (.inr (.inl ⟨n, hn, rfl⟩))) hsub with
        ⟨m, -, -, heq⟩ | ⟨hzero, hrel, heq⟩ | ⟨n', hc, -, heq⟩
      · cases heq
      · cases heq
        exact ⟨rfl, hzero, hrel⟩
      · rw [h.c_eq] at hc
        cases hc
        cases heq
        exact absurd rfl hne
    · obtain ⟨m, hm⟩ := Option.ne_none_iff_exists'.mp (h.ring_iff.mp hnone)
      have hnot : Resource.mapping m.1 m.2 ∉ p := fun hin =>
        h.ring_fresh m hm (Finset.mem_insert_of_mem hin)
      rcases hgone _ hnot ((h.mem _).mpr (.inr (.inr ⟨m, hm, rfl⟩))) hsub with
        ⟨-, -, hmunmap, -⟩ | ⟨-, -, heq⟩ | ⟨_, -, -, heq⟩
      · exact hmunmap
      · cases heq
      · cases heq
    · rcases hgone _ hfd ((h.mem _).mpr (.inl (Finset.mem_insert_self ..))) hsub with
        ⟨_, -, -, heq⟩ | ⟨hzero, -, heq⟩ | ⟨-, -, hrel, -⟩
      · cases heq
      · cases heq
        exact absurd rfl (hfresh _ (h.fd_mem hzero)).1
      · exact hrel
  · rintro ⟨hreceived, hring, hconn⟩ x hx
    obtain ⟨hin, hunmaps, hcloses, hhangs⟩ := (mem_closeAll envs _ _ x).mp hx
    rcases (h.mem x).mp hin with hin | ⟨n, hn, rfl⟩ | ⟨m, hm, rfl⟩
    · rcases Finset.mem_insert.mp hin with rfl | hin
      · exact absurd ⟨fd, h.c_eq, hconn, rfl⟩ hhangs
      · exact hin
    · obtain ⟨rfl, hzero, hrel⟩ := hreceived n hn
      exact absurd ⟨hzero, hrel, rfl⟩ hcloses
    · exact absurd ⟨m, hm, hring (h.ring_iff.mpr (by simp [hm])), rfl⟩ hunmaps

/-- A `Close` in `Init` is the first of them all. -/
theorem Lifetime.closeAll_init (l : Lifetime) (t : Opened) (p : Process) :
    closeAll l.closes (t.init l.init p).2.1 (t.init l.init p).2.2 =
      closeAll (l.allCloses (t.initBody l.init p).1) (t.initBody l.init p).2.1
        (t.initBody l.init p).2.2 := by
  unfold Opened.init Lifetime.allCloses
  generalize t.initBody l.init p = r
  obtain ⟨err, t', p'⟩ := r
  cases err <;> rfl

/-- A `Close` on a `Conn` that has nothing but the connection. -/
theorem close_connection_subset_iff (env : CloseEnv) (conn : Conn) {fd : Nat} {p : Process}
    (hfd : Resource.fd fd ∉ p) :
    ((Opened.fresh conn fd).close env (insert (.fd fd) p)).2.2 ⊆ p ↔ Releases env.closeConn := by
  have hmem := (close_state env (Opened.fresh conn fd) (insert (.fd fd) p)).1
  constructor
  · intro hsub
    by_contra hrel
    refine hfd (hsub ((hmem _).mpr ⟨Finset.mem_insert_self .., ?_, ?_, ?_⟩))
    · rintro ⟨_, -, -, heq⟩
      cases heq
    · rintro ⟨hzero, -⟩
      exact hzero rfl
    · rintro ⟨_, -, hrel', -⟩
      exact hrel hrel'
  · intro hrel x hx
    obtain ⟨hin, -, -, hhangs⟩ := (hmem x).mp hx
    rcases Finset.mem_insert.mp hin with rfl | hin
    · exact absurd ⟨fd, rfl, hrel, rfl⟩ hhangs
    · exact hin

/-- `net.DialUnix` has bound its socket, and so there is a file. -/
def Dialed.Bound {w : World} {name : Nat} : Dialed w name → Prop
  | .connected _ _ _ | .refused _ _ => True
  | .unbound _ => False

/-- Each way in which the dial can end has bound the name or has not. -/
instance {w : World} {name : Nat} (d : Dialed w name) : Decidable d.Bound := by
  unfold Dialed.Bound
  split <;> infer_instance

/-- A run has one file more at its end, if `net.DialUnix` has bound its socket, and otherwise the
files it has found. -/
theorem Lifetime.files_eq (l : Lifetime) {w w' : World} (hrun : l.run w = some w') :
    w'.files = if (l.connect.dial w).Bound then insert l.connect.localSocketName w.files
      else w.files := by
  unfold Lifetime.run connectCall at hrun
  cases hdial : l.connect.dial w with
  | unbound e =>
      rw [hdial] at hrun
      cases hrun
      rfl
  | refused e free =>
      rw [hdial] at hrun
      cases hrun
      rfl
  | connected fd fresh free =>
      rw [hdial] at hrun
      cases hread : GoClient.connect l.connect.segs with
      | error stop segs =>
          cases stop with
          | blocked => simp [hread] at hrun
          | fail e =>
              simp only [hread, Option.some.injEq] at hrun
              rw [← hrun]
              rfl
      | ok conn segs =>
          simp only [hread, Option.some.injEq] at hrun
          rw [← hrun]
          rfl

/-- A `Close` on a `Conn` that has nothing at all. -/
theorem close_nothing (env : CloseEnv) (p : Process) :
    (Opened.close env ⟨⟨0, 0, 0⟩, none, 0, none⟩ p).2.2 = p := rfl

/-- The process is left with no descriptor and no mapping of a `Conn`, exactly for the clean
runs. -/
theorem Lifetime.subset_iff (l : Lifetime) (w : World) :
    (∀ w', l.run w = some w' → w'.p ⊆ w.p) ↔ l.Clean w := by
  unfold Lifetime.run Lifetime.Clean connectCall
  cases hdial : l.connect.dial w with
  | unbound e | refused e free => simp [dialFailed, close_nothing, Dialed.fd?]
  | connected fd fresh free =>
      cases hread : GoClient.connect l.connect.segs with
      | error stop segs =>
          cases stop with
          | blocked => simp
          | fail e =>
              have hiff := close_connection_subset_iff l.connect.close ⟨0, 0, 0⟩ fresh
              simpa [Opened.fresh, Dialed.fd?] using hiff
      | ok conn segs =>
          have hinit := initiated_initBody l.init conn fd (insert (.fd fd) w.p)
          have hiff := closeAll_subset_iff fresh hinit
            (l.allCloses ((Opened.fresh conn fd).initBody l.init (insert (.fd fd) w.p)).1)
          have hrun := l.closeAll_init (Opened.fresh conn fd) (insert (.fd fd) w.p)
          rw [← hrun] at hiff
          simpa [Opened.fresh, Dialed.fd?] using hiff

/-- No descriptor and no mapping that a `Conn` acquires is left at its end, exactly for the clean
runs. The file of its socket is left in every run in which there was one, and it is a new one. -/
theorem leaves_nothing_iff (l : Lifetime) (w : World) :
    ((∀ w', l.run w = some w' → w'.p ⊆ w.p) ↔ l.Clean w) ∧
    ∀ w', l.run w = some w' → (l.connect.dial w).Bound →
      l.connect.localSocketName ∉ w.files ∧
      w'.files = insert l.connect.localSocketName w.files := by
  refine ⟨l.subset_iff w, fun w' hrun hbound => ⟨?_, ?_⟩⟩
  · cases hdial : l.connect.dial w with
    | connected fd fresh free => exact free
    | refused e free => exact free
    | unbound e =>
        rw [hdial] at hbound
        exact hbound.elim
  · rw [l.files_eq hrun, if_pos hbound]

end Testimony.GoClient
