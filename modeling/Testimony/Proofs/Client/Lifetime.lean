import Testimony.Client.Lifetime

/-!
# `Testimony.Proofs.Client.Lifetime`: what the C client releases

`testimony_close` releases what the fields of `testimony_internal` name (`Internal.owned`), all of
it or not the struct itself. The descriptor of the ring is not among it, and neither is what a
field was overwritten with.

`releases_all_iff` says for which runs from `testimony_connect` to `testimony_close` nothing is
left: the socket could be created and closed, and no descriptor was ever received.
-/

set_option autoImplicit false

namespace Testimony.Client

open Lib

/-! ### `testimony_close` -/

/-- What `testimony_close` releases. -/
def Internal.owned (t : Internal) : Process :=
  (if t.ring ≠ 0 then {.mapping t.ring (sizeProduct t.conn.blockNr t.conn.blockSize)} else ∅) ∪
    {.fd t.sockFd.toNat} ∪ (t.blockCounts.elim ∅ fun addr => {.heap addr}) ∪ {.heap t.addr}

/-- A `close` that succeeds has released the descriptor and nothing else. -/
theorem closeFd_ok {answer : CloseAnswer} {fd : Int} {p p' : Process}
    (h : closeFd answer fd p = .ok () p') : p' = p.erase (.fd fd.toNat) := by
  cases fd with
  | negSucc n => cases h
  | ofNat n =>
      simp only [closeFd] at h
      split at h
      · cases answer with
        | ok =>
            cases h
            rfl
        | error e released => cases released <;> cases h
      · cases h

/-- `free` does not fail, and releases what it is given, if that is not `NULL`. -/
theorem free_apply (ptr : Option Nat) (p : Process) :
    free ptr p = .ok () (p \ ptr.elim ∅ fun addr => {.heap addr}) := by
  cases ptr with
  | none => rw [free, Option.elim_none, Finset.sdiff_empty]
  | some addr => rw [free, Option.elim_some, Finset.sdiff_singleton_eq_erase]

/-- The part behind `munmap`. -/
def closeRest (env : CloseEnv) (t : Internal) : EStateM Errno Process Unit := do
  closeFd env.close t.sockFd
  free t.blockCounts
  free (some t.addr)

/-- `testimony_close` unmaps the ring, if there is one, and then goes on with the descriptors and
the memory. -/
theorem testimonyClose_eq (env : CloseEnv) (t : Internal) : testimonyClose env t =
    if t.ring ≠ 0 then
      munmap env.munmap t.ring (sizeProduct t.conn.blockNr t.conn.blockSize) >>= fun _ =>
        closeRest env t
    else closeRest env t := by
  rw [testimonyClose]
  split <;> rfl

/-- A descriptor that can be closed is followed by the counts and the struct. -/
theorem closeRest_ok {env : CloseEnv} {t : Internal} {p p₁ : Process}
    (h : closeFd env.close t.sockFd p = .ok () p₁) : closeRest env t p = .ok ()
      ((p₁ \ t.blockCounts.elim ∅ fun addr => {.heap addr}) \ {.heap t.addr}) := by
  rw [closeRest, bind_ok h, bind_ok (free_apply t.blockCounts p₁), free_apply]
  rfl

/-- A descriptor that cannot be closed keeps the struct from being freed. -/
theorem closeRest_error {env : CloseEnv} {t : Internal} {p p' : Process} {e : Errno}
    (h : closeFd env.close t.sockFd p = .error e p') : closeRest env t p = .error e p' := by
  rw [closeRest, bind_error h]

/-- A close that succeeds releases what the fields name, and nothing else. -/
theorem testimonyClose_ok {env : CloseEnv} {t : Internal} {p p' : Process}
    (h : testimonyClose env t p = .ok () p') : p' = p \ t.owned := by
  have hrest : ∀ {p}, closeRest env t p = .ok () p' → p' = p \ ({.fd t.sockFd.toNat} ∪
      (t.blockCounts.elim ∅ fun addr => {.heap addr}) ∪ {.heap t.addr}) := by
    intro p h
    cases hfd : closeFd env.close t.sockFd p with
    | error e p₁ =>
        rw [closeRest_error hfd] at h
        cases h
    | ok _ p₁ =>
        rw [closeRest_ok hfd, closeFd_ok hfd] at h
        cases h
        rw [Finset.erase_eq, sdiff_sdiff, sdiff_sdiff, Finset.union_assoc]
        rfl
  rw [testimonyClose_eq] at h
  rw [Internal.owned]
  by_cases hring : t.ring ≠ 0
  · rw [if_pos hring] at h ⊢
    cases hanswer : env.munmap with
    | some e =>
        rw [hanswer] at h
        cases h
    | none =>
        rw [hanswer] at h
        rw [hrest h, Finset.erase_eq, sdiff_sdiff, Finset.sup_eq_union]
        simp only [Finset.union_assoc]
  · rw [if_neg hring] at h ⊢
    rw [hrest h, Finset.empty_union]

/-- With nothing mapped, all that is needed is that the socket is there and `close` succeeds. -/
theorem testimonyClose_unmapped (env : CloseEnv) {t : Internal} (hring : t.ring = 0)
    (p : Process) : testimonyClose env t p = closeRest env t p := by
  rw [testimonyClose_eq, if_neg (not_not.mpr hring)]

/-- A `close` that fails, for whatever reason, leaves the heap alone. -/
theorem closeFd_error {answer : CloseAnswer} {fd : Int} {p p' : Process} {e : Errno}
    (h : closeFd answer fd p = .error e p') {addr : Nat} :
    Resource.heap addr ∈ p' ↔ Resource.heap addr ∈ p := by
  cases fd with
  | negSucc n =>
      cases h
      rfl
  | ofNat n =>
      simp only [closeFd] at h
      split at h
      · cases answer with
        | ok => cases h
        -- Linux may have released the descriptor in spite of the error.
        | error e released =>
            cases released with
            | false =>
                cases h
                rfl
            | true =>
                cases h
                simp
      · cases h
        rfl

/-! ### `testimony_connect` -/

/-- A struct as `testimony_connect` makes it, with nothing mapped and no counts. -/
structure Internal.New (t : Internal) (addr : Nat) (fd : Int) : Prop where
  addr_eq : t.addr = addr
  sockFd_eq : t.sockFd = fd
  ring_eq : t.ring = 0
  blockCounts_eq : t.blockCounts = none

/-- A connection that is new has its memory and its socket, and nothing else. -/
theorem Internal.New.owned_eq {t : Internal} {addr : Nat} {fd : Int} (h : t.New addr fd) :
    t.owned = {.fd fd.toNat, .heap addr} := by
  rw [Internal.owned, if_neg (not_not.mpr h.ring_eq), h.blockCounts_eq, h.addr_eq, h.sockFd_eq]
  rfl

/-- What can come of `testimony_connect` behind `malloc`. -/
inductive ConnectsTo (env : ConnectEnv) (addr : Nat) (p : Process) : Connected × Process → Prop
  | noSocket {e : Nat} {t : Internal} (hsocket : env.socket p = .error e) (hnew : t.New addr (-1))
      (errno : Errno) (msg : ConnectCallMsg) :
      ConnectsTo env addr p (connectFail env.close t errno msg p)
  | fail {fd : {fd : Nat // Resource.fd fd ∉ p}} {t : Internal} (hsocket : env.socket p = .ok fd)
      (hnew : t.New addr fd.val) (errno : Errno) (msg : ConnectCallMsg) :
      ConnectsTo env addr p (connectFail env.close t errno msg (insert (.fd fd.val) p))
  | ok {fd : {fd : Nat // Resource.fd fd ∉ p}} {t : Internal} (hsocket : env.socket p = .ok fd)
      (hnew : t.New addr fd.val) {sock : Sock}
      (hread : testimonyConnect ⟨[], env.segs⟩ = .ok t.conn sock) :
      ConnectsTo env addr p (.ok t, insert (.fd fd.val) p)
  | blocked (p' : Process) : ConnectsTo env addr p (.blocked, p')

/-- What `testimony_connect` does behind its `malloc` ends in one of the four ways of
`ConnectsTo`. -/
theorem connectWith_cases (env : ConnectEnv) (addr : Nat) (p : Process) :
    ConnectsTo env addr p (connectWith env addr p) := by
  simp only [connectWith]
  cases hsocket : env.socket p with
  | error e => exact .noSocket hsocket (by constructor <;> rfl) _ _
  | ok fd =>
      cases env.bind with
      | some e => exact .fail hsocket (by constructor <;> rfl) _ _
      | none =>
          cases env.connect with
          | some e => exact .fail hsocket (by constructor <;> rfl) _ _
          | none =>
              cases hread : testimonyConnect ⟨[], env.segs⟩ with
              | ok conn sock => exact .ok hsocket (by constructor <;> rfl) hread
              | error stop sock =>
                  cases stop with
                  | fail e msg => exact .fail hsocket (by constructor <;> rfl) _ _
                  | blocked => exact .blocked _

/-- The label `fail` returns the error that led there, whatever `testimony_close` returns. -/
theorem connectFail_result (env : CloseEnv) (t : Internal) (errno : Errno) (msg : ConnectCallMsg)
    (p : Process) : connectFail env t errno msg p =
      (.error errno (some msg), (connectFail env t errno msg p).2) := by
  rw [connectFail]
  split <;> rfl

/-- A `testimony_connect` that succeeds has gone through the handshake. -/
theorem ConnectsTo.of_ok {env : ConnectEnv} {addr : Nat} {p p' : Process} {t : Internal}
    (h : ConnectsTo env addr p (.ok t, p')) :
    (∃ fd, t.New addr fd) ∧ ∃ sock, testimonyConnect ⟨[], env.segs⟩ = .ok t.conn sock := by
  generalize hr : ((.ok t, p') : Connected × Process) = r at h
  cases h with
  | noSocket _ _ errno msg | fail _ _ errno msg =>
      rw [connectFail_result] at hr
      cases hr
  | @ok _ _ _ hnew _ hread =>
      cases hr
      exact ⟨⟨_, hnew⟩, _, hread⟩
  | blocked => cases hr

/-- A failing `testimony_connect` frees the struct exactly if `close` succeeds. -/
theorem connectFail_held (env : CloseEnv) {t : Internal} {addr : Nat} {fd : Int}
    (hnew : t.New addr fd) (errno : Errno) (msg : ConnectCallMsg) (p : Process) :
    ((∃ p₁, closeFd env.close fd p = .ok () p₁) →
      (connectFail env t errno msg p).2 = p \ {.fd fd.toNat, .heap addr}) ∧
    ((¬ ∃ p₁, closeFd env.close fd p = .ok () p₁) →
      (Resource.heap addr ∈ (connectFail env t errno msg p).2 ↔ Resource.heap addr ∈ p)) := by
  rw [connectFail, testimonyClose_unmapped env hnew.ring_eq]
  cases hclose : closeFd env.close t.sockFd p with
  | ok _ p₁ =>
      have hok := closeRest_ok hclose
      have hall := testimonyClose_ok ((testimonyClose_unmapped env hnew.ring_eq p).trans hok)
      rw [hnew.owned_eq] at hall
      rw [hok]
      rw [hnew.sockFd_eq] at hclose
      exact ⟨fun _ => hall, fun hno => absurd ⟨p₁, hclose⟩ hno⟩
  | error e p₁ =>
      rw [closeRest_error hclose]
      rw [hnew.sockFd_eq] at hclose
      refine ⟨?_, fun _ => closeFd_error hclose⟩
      rintro ⟨p₂, hok⟩
      rw [hclose] at hok
      cases hok

/-! ### `testimony_init` -/

/-- The descriptors that a call of `testimony_init` receives, if it comes to that. -/
def InitEnv.received (env : InitEnv) (p : Process) : List Nat :=
  match env.sendHead, env.sendIndex, env.recvmsg p with
  | none, none, .ok msg => msg.cmsgs.flatMap Cmsg.fds
  | _, _, _ => []

/-- A process with further descriptors has what it had, and these. -/
theorem mem_addFds {p : Process} {fds : List Nat} {r : Resource} :
    r ∈ p.addFds fds ↔ r ∈ p ∨ ∃ fd ∈ fds, r = .fd fd := by
  induction fds with
  | nil => simp [Process.addFds]
  | cons fd fds ih =>
      rw [Process.addFds, List.foldr_cons, Finset.mem_insert]
      rw [Process.addFds] at ih
      rw [ih]
      simp only [List.mem_cons, exists_eq_or_imp]
      tauto

/-- A message without descriptors has none that could be the first. -/
theorem firstRights_eq_none {cmsgs : List Cmsg} (h : cmsgs.flatMap Cmsg.fds = []) :
    firstRights cmsgs = none := by
  induction cmsgs with
  | nil => rfl
  | cons c cmsgs ih =>
      cases c with
      | rights fd more => cases h
      | other => exact ih h

/-- The descriptors are there after the call, whatever it returns. -/
theorem recvFileDescriptor_state (env : InitEnv) (p : Process) {msg : Received p}
    (hmsg : env.recvmsg p = .ok msg) :
    (∃ fd, recvFileDescriptor env p = .ok fd (p.addFds (msg.cmsgs.flatMap Cmsg.fds))) ∨
    ∃ e, recvFileDescriptor env p = .error e (p.addFds (msg.cmsgs.flatMap Cmsg.fds)) := by
  simp only [recvFileDescriptor, hmsg]
  split
  · exact .inr ⟨_, rfl⟩
  · split
    · exact .inl ⟨_, rfl⟩
    · exact .inr ⟨_, rfl⟩

/-- What a call leaves as it is: the struct stays where it is with its socket, and nothing is
given up. -/
structure InitDone.Frame (d : InitDone) (t : Internal) (p : Process) : Prop where
  addr_eq : d.t.addr = t.addr
  sockFd_eq : d.t.sockFd = t.sockFd
  held : p ⊆ d.p

/-- The mapping of a descriptor leaves the socket and the memory of the connection alone, and takes
nothing from the process. -/
theorem mapFd_frame (env : InitEnv) (fd : Nat) (t : Internal) (p : Process) :
    (mapFd env fd t p).Frame t p := by
  simp only [mapFd]
  split <;> refine ⟨rfl, rfl, ?_⟩
  · refine Finset.Subset.trans ?_ (Finset.subset_insert ..)
    split
    · exact Finset.Subset.refl p
    · exact Finset.subset_insert _ p
  · dsimp only
    split
    · exact Finset.Subset.refl p
    · exact Finset.subset_insert _ p

/-- A call that gets past its checks has received what there is to receive. -/
theorem testimonyInit_frame (env : InitEnv) (t : Internal) (p : Process) :
    (testimonyInit env t p).Frame t p ∧
    (t.ring = 0 → ∀ fd ∈ env.received p, Resource.fd fd ∈ (testimonyInit env t p).p) := by
  simp only [testimonyInit, InitEnv.received]
  split
  · rename_i hring
    exact ⟨⟨rfl, rfl, Finset.Subset.refl p⟩, fun h => absurd h hring⟩
  · cases env.sendHead with
    | some e => exact ⟨⟨rfl, rfl, Finset.Subset.refl p⟩, by simp⟩
    | none =>
        cases env.sendIndex with
        | some e => exact ⟨⟨rfl, rfl, Finset.Subset.refl p⟩, by simp⟩
        | none =>
            cases hmsg : env.recvmsg p with
            | error e =>
                have hrecv : recvFileDescriptor env p = .error (.sys e) p := by
                  rw [recvFileDescriptor, hmsg]
                rw [hrecv]
                exact ⟨⟨rfl, rfl, Finset.Subset.refl p⟩, by simp⟩
            | ok msg =>
                -- What is received stays, whatever comes next.
                have hsub : p ⊆ p.addFds (msg.cmsgs.flatMap Cmsg.fds) :=
                  fun r hr => mem_addFds.mpr (.inl hr)
                have hin : ∀ fd ∈ msg.cmsgs.flatMap Cmsg.fds,
                    Resource.fd fd ∈ p.addFds (msg.cmsgs.flatMap Cmsg.fds) :=
                  fun fd hfd => mem_addFds.mpr (.inr ⟨fd, hfd, rfl⟩)
                rcases recvFileDescriptor_state env p hmsg with ⟨fd, hrecv⟩ | ⟨e, hrecv⟩
                · rw [hrecv]
                  have hframe := mapFd_frame env fd t (p.addFds (msg.cmsgs.flatMap Cmsg.fds))
                  exact ⟨⟨hframe.1, hframe.2, hsub.trans hframe.3⟩,
                    fun _ fd hfd => hframe.held (hin fd hfd)⟩
                · rw [hrecv]
                  exact ⟨⟨rfl, rfl, hsub⟩, fun _ => hin⟩

/-- A call that receives no descriptor comes to nothing. -/
theorem testimonyInit_idle {env : InitEnv} {t : Internal} {p : Process} {addr : Nat} {fd : Int}
    (hnew : t.New addr fd) (hnone : env.received p = []) :
    (testimonyInit env t p).t.New addr fd ∧ (testimonyInit env t p).p = p := by
  simp only [testimonyInit, InitEnv.received] at hnone ⊢
  rw [if_neg (not_not.mpr hnew.ring_eq)]
  cases hhead : env.sendHead with
  | some e => exact ⟨hnew, rfl⟩
  | none =>
      cases hindex : env.sendIndex with
      | some e => exact ⟨hnew, rfl⟩
      | none =>
          have hrecv : ∃ e, recvFileDescriptor env p = .error e p := by
            cases hmsg : env.recvmsg p with
            | error e => exact ⟨_, by rw [recvFileDescriptor, hmsg]⟩
            | ok msg =>
                simp only [hhead, hindex, hmsg] at hnone
                simp only [recvFileDescriptor, hmsg, firstRights_eq_none hnone, hnone,
                  Process.addFds, List.foldr_nil]
                split <;> exact ⟨_, rfl⟩
          obtain ⟨e, hrecv⟩ := hrecv
          rw [hrecv]
          exact ⟨⟨hnew.1, hnew.2, hnew.3, hnew.4⟩, rfl⟩

/-- Calls of `testimony_init` leave the socket and the memory of the connection alone, and take
nothing from the process. -/
theorem initAll_frame (envs : List InitEnv) : ∀ (t : Internal) (p : Process),
    (initAll envs t p).1.addr = t.addr ∧ (initAll envs t p).1.sockFd = t.sockFd ∧
      p ⊆ (initAll envs t p).2 := by
  induction envs with
  | nil => exact fun t p => ⟨rfl, rfl, Finset.Subset.refl p⟩
  | cons env envs ih =>
      intro t p
      obtain ⟨hframe, -⟩ := testimonyInit_frame env t p
      obtain ⟨haddr, hfd, hsub⟩ := ih (testimonyInit env t p).t (testimonyInit env t p).p
      exact ⟨haddr.trans hframe.1, hfd.trans hframe.2, hframe.3.trans hsub⟩

/-- As long as no descriptor comes, nothing happens. The first one that comes stays. -/
theorem initAll_cases {addr : Nat} {fd : Int} {p : Process} (envs : List InitEnv) :
    ∀ {t : Internal}, t.New addr fd →
      (∀ env ∈ envs, env.received p = []) ∧ (initAll envs t p).1.New addr fd ∧
        (initAll envs t p).2 = p ∨
      ∃ env ∈ envs, ∃ fd ∈ env.received p, Resource.fd fd ∈ (initAll envs t p).2 := by
  induction envs with
  | nil => exact fun hnew => .inl ⟨by simp, hnew, rfl⟩
  | cons env envs ih =>
      intro t hnew
      cases hreceived : env.received p with
      | nil =>
          obtain ⟨hnew', hp⟩ := testimonyInit_idle hnew hreceived
          rw [initAll, hp]
          rcases ih hnew' with ⟨hnone, hrest⟩ | ⟨env', henv', hfd⟩
          · exact .inl ⟨List.forall_mem_cons.mpr ⟨hreceived, hnone⟩, hrest⟩
          · exact .inr ⟨env', List.mem_cons_of_mem _ henv', hfd⟩
      | cons fd fds =>
          have hmem : fd ∈ env.received p := hreceived ▸ List.mem_cons_self ..
          have hin := (testimonyInit_frame env t p).2 hnew.ring_eq fd hmem
          exact .inr ⟨env, List.mem_cons_self .., fd, hmem, (initAll_frame envs _ _).2.2 hin⟩

/-- A descriptor that is received is a new one. -/
theorem not_mem_of_received {env : InitEnv} {p : Process} {fd : Nat} (h : fd ∈ env.received p) :
    Resource.fd fd ∉ p := by
  rw [InitEnv.received] at h
  cases hhead : env.sendHead with
  | some e => simp [hhead] at h
  | none =>
      cases hindex : env.sendIndex with
      | some e => simp [hhead, hindex] at h
      | none =>
          cases hmsg : env.recvmsg p with
          | error e => simp [hhead, hindex, hmsg] at h
          | ok msg =>
              rw [hhead, hindex, hmsg] at h
              exact msg.fresh fd h

/-! ### From `testimony_connect` to `testimony_close` -/

/-- What a connection meets from its beginning to its end, with any number of calls of
`testimony_init`. -/
structure Lifetime where
  connect : ConnectEnv
  inits : List InitEnv
  close : CloseEnv

/-- The last call. -/
def Lifetime.closing (l : Lifetime) (t : Internal) (p : Process) :
    EStateM.Result Errno Process Unit :=
  testimonyClose l.close (initAll l.inits t p).1 (initAll l.inits t p).2

/-- With what `testimony_connect` comes to: of what was acquired on the way nothing is held at the
end. -/
def Lifetime.Releases (l : Lifetime) (p : Process) : Connected × Process → Prop
  | (.blocked, _) => True
  | (.error _ _, p') => p' ⊆ p
  | (.ok t, p') => ∀ p'', l.closing t p' = .ok () p'' → p'' ⊆ p

/-- Of what was acquired on the way nothing is held at the end. -/
def Lifetime.ReleasesAll (l : Lifetime) (p : Process) : Prop :=
  l.Releases p (testimonyConnectCall l.connect p)

/-- The socket cannot be bound or connected, or the server does not get through the handshake. -/
def ConnectEnv.Fails (env : ConnectEnv) : Prop :=
  env.bind ≠ none ∨ env.connect ≠ none ∨
    ∃ e msg sock, testimonyConnect ⟨[], env.segs⟩ = .error (.fail e msg) sock

/-- The struct behind a `testimony_connect` that succeeds. -/
def Internal.connected (addr fd : Nat) (conn : Connection) (sock : Sock) : Internal :=
  ⟨addr, conn, fd, 0, 0, none, sock⟩

/-- The kernel lets `testimony_close` do its work: it closes the socket, and it unmaps the ring of
`t` if there is one. -/
def CloseEnv.Lets (env : CloseEnv) (t : Internal) : Prop :=
  env.close = .ok ∧ (t.ring ≠ 0 → env.munmap = none)

/-- The runs with a struct and a socket that leave nothing behind. If the connection fails, the
socket must be one that can be closed. If it does not, either the kernel does not let
`testimony_close` do its work, which then does not return 0, or no call of `testimony_init` receives
a descriptor. -/
structure Lifetime.CleanWith (l : Lifetime) (addr fd : Nat) (p : Process) : Prop where
  failed : l.connect.Fails → l.connect.close.close = .ok
  connected : ∀ conn sock, ¬ l.connect.Fails →
    testimonyConnect ⟨[], l.connect.segs⟩ = .ok conn sock →
    l.close.Lets (initAll l.inits (.connected addr fd conn sock) p).1 →
    ∀ env ∈ l.inits, env.received p = []

/-- The runs that leave nothing behind. If `malloc` succeeds, `socket` must, and the rest must be
clean as well. -/
def Lifetime.Clean (l : Lifetime) (p : Process) : Prop :=
  ∀ addr, l.connect.malloc p = some addr →
    ∃ fd, l.connect.socket (insert (.heap addr.val) p) = .ok fd ∧
      l.CleanWith addr.val fd.val (insert (.fd fd.val) (insert (.heap addr.val) p))

/-- A descriptor the process holds is closed exactly if `close` says so. -/
theorem closeFd_isOk_iff {answer : CloseAnswer} {fd : Nat} {p : Process} (h : Resource.fd fd ∈ p) :
    (∃ p', closeFd answer fd p = .ok () p') ↔ answer = .ok := by
  show (∃ p', (if Resource.fd fd ∈ p then _ else _ : EStateM.Result Errno Process Unit) = _) ↔ _
  rw [if_pos h]
  cases answer with
  | ok => simp
  | error e released => cases released <;> simp

/-- A failing `testimony_connect`, with the socket it may have. -/
theorem connectFail_subset_iff (env : CloseEnv) {t : Internal} {addr : Nat} {fd : Int}
    (hnew : t.New addr fd) (errno : Errno) (msg : ConnectCallMsg) {p p₁ : Process}
    (haddr : Resource.heap addr ∉ p) (hp₁ : p₁ = insert (.heap addr) p ∨
      p₁ = insert (.fd fd.toNat) (insert (.heap addr) p)) :
    (connectFail env t errno msg p₁).2 ⊆ p ↔ ∃ p', closeFd env.close fd p₁ = .ok () p' := by
  have hmem : Resource.heap addr ∈ p₁ := by
    rcases hp₁ with rfl | rfl <;> simp
  obtain ⟨hclosed, hkept⟩ := connectFail_held env hnew errno msg p₁
  constructor
  · intro hsub
    by_contra hno
    exact haddr (hsub ((hkept hno).mpr hmem))
  · intro hok r hr
    rw [hclosed hok, Finset.mem_sdiff] at hr
    rcases hp₁ with rfl | rfl <;> simp at hr <;> tauto

/-- A connection gives back the socket and the struct, and keeps every descriptor it receives. -/
theorem closing_subset_iff (l : Lifetime) {t : Internal} {addr fd : Nat} (hnew : t.New addr fd)
    {p p₁ p'' : Process} (hp₁ : p₁ = insert (.fd fd) (insert (.heap addr) p))
    (hclose : l.closing t p₁ = .ok () p'') :
    p'' ⊆ p ↔ ∀ env ∈ l.inits, env.received p₁ = [] := by
  have hall := testimonyClose_ok hclose
  rcases initAll_cases (p := p₁) l.inits hnew with ⟨hnone, hnew', hp⟩ | ⟨env, henv, n, hn, hin⟩
  · rw [hnew'.owned_eq, hp] at hall
    refine iff_of_true (fun r hr => ?_) hnone
    rw [hall, hp₁, Finset.mem_sdiff] at hr
    simp at hr
    tauto
  · refine iff_of_false (fun hsub => ?_) fun hnone => by simp [hnone env henv] at hn
    have hnew₁ := not_mem_of_received hn
    -- The only descriptor that is closed is the socket, which was there before.
    have hne : n ≠ fd := fun heq => hnew₁ (by simp [hp₁, heq])
    have hkept : Resource.fd n ∈ p'' := by
      rw [hall, Finset.mem_sdiff]
      refine ⟨hin, ?_⟩
      have hfd : (initAll l.inits t p₁).1.sockFd = fd :=
        (initAll_frame l.inits t p₁).2.1.trans hnew.sockFd_eq
      cases hcounts : (initAll l.inits t p₁).1.blockCounts <;>
        simp only [Internal.owned, hfd, hcounts] <;> split <;> simp [hne]
    exact hnew₁ (by simp [hp₁, hsub hkept])

/-- `testimony_close` returns 0 exactly if the kernel lets it do its work. -/
theorem testimonyClose_isOk_iff (env : CloseEnv) {t : Internal} {fd : Nat} {p : Process}
    (hfd : t.sockFd = fd) (hin : Resource.fd fd ∈ p) :
    (∃ p', testimonyClose env t p = .ok () p') ↔ env.Lets t := by
  have hrest : ∀ {p}, Resource.fd fd ∈ p →
      ((∃ p', closeRest env t p = .ok () p') ↔ env.close = .ok) := by
    intro p hin
    rw [← closeFd_isOk_iff hin]
    have hclose : closeFd env.close t.sockFd p = closeFd env.close fd p := by rw [hfd]
    cases hanswer : closeFd env.close fd p with
    | ok _ p₁ => simp [closeRest_ok (hclose.trans hanswer)]
    | error e p₁ => simp [closeRest_error (hclose.trans hanswer)]
  rw [testimonyClose_eq, CloseEnv.Lets]
  by_cases hring : t.ring ≠ 0
  · rw [if_pos hring]
    cases hmunmap : env.munmap with
    | some e =>
        have hfails : munmap (some e) t.ring (sizeProduct t.conn.blockNr t.conn.blockSize) p =
            .error (.sys e) p := rfl
        rw [bind_error hfails]
        exact iff_of_false nofun fun h => nomatch h.2 hring
    | none =>
        have hunmaps : munmap none t.ring (sizeProduct t.conn.blockNr t.conn.blockSize) p =
            .ok () (p.erase (.mapping t.ring (sizeProduct t.conn.blockNr t.conn.blockSize))) := rfl
        rw [bind_ok hunmaps, hrest (Finset.mem_erase_of_ne_of_mem (by simp) hin)]
        exact (and_iff_left fun _ => rfl).symm
  · rw [if_neg hring, hrest hin]
    exact (and_iff_left fun h => absurd h hring).symm

/-- A failing `testimony_connect` with a socket leaves nothing exactly if the socket can be
closed. -/
theorem connectFail_clean_iff (env : CloseEnv) {addr fd : Nat} {p : Process} {t : Internal}
    (hnew : t.New addr fd) (errno : Errno) (msg : ConnectCallMsg) (haddr : Resource.heap addr ∉ p) :
    (connectFail env t errno msg (insert (.fd fd) (insert (.heap addr) p))).2 ⊆ p ↔
      env.close = .ok :=
  (connectFail_subset_iff env hnew errno msg haddr (.inr rfl)).trans
    (closeFd_isOk_iff (Finset.mem_insert_self ..))

/-- `testimony_connect` maps nothing and counts nothing. -/
theorem Internal.new_connected (addr fd : Nat) (conn : Connection) (sock : Sock) :
    (Internal.connected addr fd conn sock).New addr fd := by
  constructor <;> rfl

/-- If the connection fails, everything hangs on the `close` of the socket. -/
theorem Lifetime.releases_failed_iff (l : Lifetime) {addr fd : Nat} {p : Process}
    (haddr : Resource.heap addr ∉ p) (hfails : l.connect.Fails) (errno : Errno)
    (msg : ConnectCallMsg) :
    l.Releases p (connectFail l.connect.close (.connected addr fd ⟨0, 0, 0, 0⟩ ⟨[], []⟩) errno msg
        (insert (.fd fd) (insert (.heap addr) p))) ↔
      l.CleanWith addr fd (insert (.fd fd) (insert (.heap addr) p)) := by
  rw [connectFail_result]
  refine (connectFail_clean_iff l.connect.close (Internal.new_connected ..) errno msg haddr).trans
    ⟨fun hclose => ?_, fun hclean => hclean.failed hfails⟩
  exact ⟨fun _ => hclose, fun _ _ hnot => absurd hfails hnot⟩

/-- If it does not fail, what is left behind is up to the calls of `testimony_init`, provided that
`testimony_close` returns 0. -/
theorem Lifetime.releases_connected_iff (l : Lifetime) {addr fd : Nat} {p : Process}
    {conn : Connection} {sock : Sock} (hnot : ¬ l.connect.Fails)
    (hread : testimonyConnect ⟨[], l.connect.segs⟩ = .ok conn sock) :
    l.Releases p (.ok (.connected addr fd conn sock), insert (.fd fd) (insert (.heap addr) p)) ↔
      l.CleanWith addr fd (insert (.fd fd) (insert (.heap addr) p)) := by
  have hnew := Internal.new_connected addr fd conn sock
  have hframe := initAll_frame l.inits (.connected addr fd conn sock)
    (insert (.fd fd) (insert (.heap addr) p))
  have hlets := testimonyClose_isOk_iff l.close hframe.2.1
    (hframe.2.2 (Finset.mem_insert_self ..))
  constructor
  · intro hall
    refine ⟨fun hfails => absurd hfails hnot, fun conn' sock' _ hok hlet => ?_⟩
    rw [hread] at hok
    cases hok
    obtain ⟨p'', hclose⟩ := hlets.mpr hlet
    exact (closing_subset_iff l hnew rfl hclose).mp (hall p'' hclose)
  · intro hclean p'' hclose
    exact (closing_subset_iff l hnew rfl hclose).mpr
      (hclean.connected conn sock hnot hread (hlets.mp ⟨p'', hclose⟩))

/-- What a connection with a struct and a socket leaves behind. -/
theorem Lifetime.releases_iff (l : Lifetime) {addr : Nat} {p : Process}
    (haddr : Resource.heap addr ∉ p) {fd : {fd : Nat // Resource.fd fd ∉ insert (.heap addr) p}}
    (hsocket : l.connect.socket (insert (.heap addr) p) = .ok fd) :
    l.Releases p (connectWith l.connect addr (insert (.heap addr) p)) ↔
      l.CleanWith addr fd.val (insert (.fd fd.val) (insert (.heap addr) p)) := by
  simp only [connectWith, hsocket]
  cases hbind : l.connect.bind with
  | some e => exact l.releases_failed_iff haddr (.inl (by simp [hbind])) _ _
  | none =>
      cases hconnect : l.connect.connect with
      | some e => exact l.releases_failed_iff haddr (.inr (.inl (by simp [hconnect]))) _ _
      | none =>
          cases hread : testimonyConnect ⟨[], l.connect.segs⟩ with
          | ok conn sock =>
              exact l.releases_connected_iff
                (by simp [ConnectEnv.Fails, hbind, hconnect, hread]) hread
          | error stop sock =>
              cases stop with
              | fail e msg =>
                  exact l.releases_failed_iff haddr (.inr (.inr ⟨e, msg, sock, hread⟩)) _ _
              | blocked =>
                  have hnot : ¬ l.connect.Fails := by
                    simp [ConnectEnv.Fails, hbind, hconnect, hread]
                  refine iff_of_true trivial ⟨fun hfails => absurd hfails hnot, ?_⟩
                  intro conn sock' _ hok
                  rw [hread] at hok
                  cases hok

/-- Nothing that a connection acquires is left at its end, exactly for the clean runs. -/
theorem releases_all_iff (l : Lifetime) (p : Process) : l.ReleasesAll p ↔ l.Clean p := by
  rw [Lifetime.ReleasesAll, Lifetime.Clean, testimonyConnectCall]
  cases hmalloc : l.connect.malloc p with
  | none => exact iff_of_true (Finset.Subset.refl p) nofun
  | some addr =>
      simp only [Option.some.injEq, forall_eq']
      cases hsocket : l.connect.socket (insert (.heap addr.val) p) with
      | ok fd => simpa using l.releases_iff addr.2 hsocket
      | error e =>
          -- The descriptor is -1, which `close` rejects, and so the struct is not freed.
          have hnew : Internal.New ⟨addr.val, ⟨0, 0, 0, 0⟩, -1, 0, 0, none, ⟨[], []⟩⟩
              addr.val (-1) := by
            constructor <;> rfl
          have hiff := connectFail_subset_iff l.connect.close hnew (.sys e) .socket addr.2
            (.inl rfl)
          simp only [connectWith, hsocket]
          rw [connectFail_result]
          refine iff_of_false (fun hsub => ?_) fun ⟨fd, hfd, _⟩ => nomatch hfd
          obtain ⟨_, hok⟩ := hiff.mp hsub
          cases hok

/-- A server with four blocks of a page each. -/
def fourPages : List Seg :=
  [.data 2 [0x80, 0x03, 0, 4, 0, 0, 0, 1, 0x80, 0x04, 0, 4, 0, 0, 0x10, 0,
    0x80, 0x05, 0, 4, 0, 0, 0, 4, 0x80, 0x02, 0, 0]]

/-- A `testimony_connect` in which everything succeeds. -/
def quietConnect : ConnectEnv where
  malloc p := if h : Resource.heap 4096 ∉ p then some ⟨4096, h⟩ else none
  socket p := if h : Resource.fd 3 ∉ p then .ok ⟨3, h⟩ else .error 24
  bind := none
  connect := none
  segs := fourPages
  close := ⟨none, .ok⟩

/-- A `testimony_init` in which everything succeeds. -/
def quietInit : InitEnv where
  sendHead := none
  sendIndex := none
  errno := 0
  recvmsg p :=
    if h : Resource.fd 4 ∉ p then .ok ⟨1, [.rights 4 []], by simpa [Cmsg.fds] using h⟩
    else .error 24
  calloc p := if h : Resource.heap 8192 ∉ p then some ⟨8192, h⟩ else none
  mmap p len :=
    if h : 65536 + len ≤ 2 ^ 64 ∧ Resource.mapping 65536 len ∉ p then .ok ⟨65536, by decide, h⟩
    else .error 12

/-- A connection from beginning to end, with no failure anywhere. -/
def quietLife : Lifetime := ⟨quietConnect, [quietInit], ⟨none, .ok⟩⟩

/-- Every call returns 0, and the descriptor of the ring is still there. -/
theorem ring_descriptor_stays :
    let p : Process := {.fd 0, .fd 1, .fd 2}
    ∃ t p' p'', testimonyConnectCall quietConnect p = (.ok t, p') ∧
      (testimonyInit quietInit t p').ret = 0 ∧ quietLife.closing t p' = .ok () p'' ∧
      Resource.fd 4 ∈ p'' ∧ Resource.fd 4 ∉ p ∧ ¬ quietLife.ReleasesAll p := by
  refine ⟨_, _, _, rfl, rfl, rfl, by decide +kernel, by decide, fun hall => ?_⟩
  exact absurd (hall _ rfl) (by decide +kernel)

end Testimony.Client
