import Testimony.Daemon.Front
import Testimony.Proofs.Daemon.Rest
import Testimony.Proofs.Daemon.Routing

/-!
# `Testimony.Proofs.Daemon.Front`: no connection is lost or served twice

Between `AcceptUnix` and `addNewConn` a connection passes through the goroutine of its `handle` call
and an unbuffered channel. `front` interleaves these with the goroutines of all sockets behind the
listening socket.

What one of these sockets goes through is a run of `system` (`sock_reachable`), so everything that
is known about one socket holds for each of them. `connections_kept` says how the accepted
connections and those of the sockets belong together, and that a connection stays where it is. A
connection on its way to a socket also gets there: some run of the goroutines alone registers all of
them (`offers_taken`). That uses that a socket by itself comes to rest in its `select`.
-/

set_option autoImplicit false

namespace Testimony.Daemon

open Lib Wire

/-! ### One step -/

section
variable {k : Conf} {d d' : State k}

/-- `socket.run` has one connection more after `addNewConn`, and as many as before otherwise. -/
theorem Inv.numConns_step {l : Label k} (hd : Inv d) (h : step d l = some d') :
    d'.numConns = d.numConns + l.isNewConn.toNat := by
  rcases hd.step_cases h with hm | ⟨errno, -, rfl, rfl⟩
  · cases hm <;> rfl
  · rfl

end

variable {L : Listener} {s s' : Front L.conf}

/-- What a step of the process does. -/
inductive Front.Move (L : Listener) (s : Front L.conf) : FrontLabel L.conf → Front L.conf → Prop
  | accept : Front.Move L s .accept { s with conns := s.conns ++ [.handling] }
  | acceptError : Front.Move L s .acceptError { s with exited := true }
  | handle {j : Nat} {client : Behaviour} (hj : s.conns[j]? = some .handling) :
      Front.Move L s (.handle j client) { s with
        conns := s.conns.set j (.after client (Daemon.handle L.socks client))
        exited := decide ((Daemon.handle L.socks client).ending = .panicked) }
  | newConn {j i : Nat} {client : Behaviour} {d : State L.conf}
      (hj : s.conns[j]? = some (.offered client i))
      (hstep : Daemon.step (s.sock i) (.run .newConn) = some d) :
      Front.Move L s (.newConn j) { s.setSock i d with
        conns := s.conns.set j (.registered client i (s.sock i).numConns) }
  | sock {i : Nat} {l : Label L.conf} {d : State L.conf} (hi : i < L.socks.length)
      (hl : l.isNewConn = false) (hstep : Daemon.step (s.sock i) l = some d) :
      Front.Move L s (.sock i l) (s.setSock i d)

/-- Every step of the process is one of its moves. -/
theorem Front.step_cases {l : FrontLabel L.conf} (h : Front.step L.socks s l = some s') :
    s.exited = false ∧ Front.Move L s l s' := by
  unfold Front.step at h
  split at h
  · cases h
  rename_i hexited
  refine ⟨by simpa using hexited, ?_⟩
  cases l with
  | accept =>
      cases h
      exact .accept
  | acceptError =>
      cases h
      exact .acceptError
  | handle j client =>
      simp only [Front.handle] at h
      split at h
      · cases h
        exact .handle ‹_›
      · cases h
  | newConn j =>
      simp only [Front.newConn] at h
      split at h
      · obtain ⟨d, hstep, rfl⟩ := Option.map_eq_some_iff.mp h
        exact .newConn ‹_› hstep
      · cases h
  | sock i l =>
      simp only [Front.sockStep] at h
      split at h
      · rename_i hguard
        obtain ⟨d, hstep, rfl⟩ := Option.map_eq_some_iff.mp h
        exact .sock hguard.1 hguard.2 hstep
      · cases h

/-! ### Each socket by itself -/

/-- The steps of the sockets satisfy `G`. -/
def Each {k : Conf} (G : State k → Label k → Prop) (s : Front k) : FrontLabel k → Prop
  | .sock i l => G (s.sock i) l
  | _ => True

/-- What a socket goes through is a run of that socket. -/
theorem sock_reachable {G : State L.conf → Label L.conf → Prop} (hG : ∀ d, G d (.run .newConn))
    (h : (front L).ReachableBy (Each G) s) (i : Nat) :
    (system L.conf).ReachableBy G (s.sock i) := by
  refine h.invariant (P := fun s => ∀ i, (system L.conf).ReachableBy G (s.sock i))
    (fun _ => .init) ?_ i
  intro s l s' _ hs hguard hstep
  cases (Front.step_cases hstep).2 with
  | accept | acceptError | handle => exact hs
  | newConn hj hnew =>
      exact (Function.forall_update_iff s.sock fun _ d => (system L.conf).ReachableBy G d).mpr
        ⟨.step (hs _) (hG _) hnew, fun i _ => hs i⟩
  | sock hi hl hsock =>
      exact (Function.forall_update_iff s.sock fun _ d => (system L.conf).ReachableBy G d).mpr
        ⟨.step (hs _) hguard hsock, fun i _ => hs i⟩

/-- Every socket behind the listening socket keeps the invariant of a socket. -/
theorem sock_inv (h : (front L).Reachable s) (i : Nat) : Daemon.Inv (s.sock i) := by
  have heach : (front L).ReachableBy (Each fun _ _ => True) s :=
    h.mono fun _ l _ => by cases l <;> trivial
  exact inv_of_reachable (sock_reachable (fun _ => trivial) heach i)

/-- The sockets of one configuration entry have as many blocks as it says. -/
theorem numBlocks_of_newSockets {env : Env} {sc : ConfigEntry} {id : Int} {socks : List Socket}
    (h : newSockets env sc id = .ok socks) :
    ∀ sock ∈ socks, sock.numBlocks = sc.numBlocks.toNat := by
  intro sock hsock
  obtain ⟨i, -, hi⟩ := (mapM_ok h).2 sock hsock
  split at hi
  · rename_i sock' hnew
    cases hi
    exact (newSocket_ok hnew).2.2.1
  · cases hi

/-! ### Where a connection goes -/

/-- The client has asked for the socket with the index `i`, and was sent its descriptor. -/
def Asked (L : Listener) (client : Behaviour) (i : Nat) : Prop :=
  ∃ sock, L.socks[i]? = some sock ∧ client.Sends i ∧
    .sendFd i sock.fd ∈ (handle L.socks client).events

/-- If `handedTo` names a socket, `handle` has handed the client to it. -/
theorem handOff_mem_of_handedTo {events : List HandleEvent} {i : Nat}
    (h : handedTo events = some i) : .handOff i ∈ routing events := by
  obtain ⟨e, hmem, he⟩ := List.exists_of_findSome?_eq_some h
  cases e with
  | handOff i' =>
      cases he
      exact List.mem_filter.mpr ⟨hmem, rfl⟩
  | write _ | sendFd _ _ | close => cases he

/-- Without a socket, a call of `handle` gives up at the first write or panics at `socks[0]`. -/
theorem handedTo_nil (client : Behaviour) : handedTo (handle [] client).events = none := by
  cases hwrite : client.write 0 with
  | none =>
      have hfirst : writeConn client 0 [protocolVersion] .version [] =
          .ok () [.write [protocolVersion]] := by
        rw [writeConn, hwrite]
        rfl
      rw [handle, handleBody, bind_ok hfirst]
      rfl
  | some e =>
      have hfirst : writeConn client 0 [protocolVersion] .version [] =
          .error (.returns (.version e)) [] := by
        rw [writeConn, hwrite]
      rw [handle, handleBody, bind_error hfirst]
      rfl

/-- A call of `handle` sends the connection only to a socket that was asked for. -/
theorem asked_of_handedTo {client : Behaviour} {i : Nat}
    (hend : (handle L.socks client).ending ≠ .waiting)
    (h : handedTo (handle L.socks client).events = some i) : Asked L client i := by
  by_cases hsocks : L.socks = []
  · rw [hsocks, handedTo_nil] at h
    cases h
  · have hrouted := routed_of_ne_nil hsocks client
    have hmem := handOff_mem_of_handedTo h
    have hreturned : (handle L.socks client).ending = .returned := by
      cases hcase : (handle L.socks client).ending with
      | returned => rfl
      | panicked => exact absurd hcase hrouted.not_panicked
      | waiting => exact absurd hcase hend
    rcases hrouted.returned hreturned with hclose | ⟨i', sock, hsock, hsends, hevents⟩
    · simp [hclose] at hmem
    · obtain rfl : i = i' := by simpa [hevents] using hmem
      have hsent : .sendFd i sock.fd ∈ routing (handle L.socks client).events := by simp [hevents]
      exact ⟨sock, hsock, hsends, (List.mem_filter.mp hsent).1⟩

/-- What becomes of a connection once `handle` is done with it. -/
theorem after_cases (client : Behaviour) :
    Stage.after client (handle L.socks client) = .handling ∨
    Stage.after client (handle L.socks client) = .closed ∨
    ∃ i, Stage.after client (handle L.socks client) = .offered client i ∧ Asked L client i := by
  by_cases hend : (handle L.socks client).ending = .waiting
  · exact .inl (by simp [Stage.after, hend])
  · have hafter : Stage.after client (handle L.socks client) =
        (handedTo (handle L.socks client).events).elim .closed (.offered client) := by
      cases hcase : (handle L.socks client).ending with
      | waiting => exact absurd hcase hend
      | returned | panicked => simp only [Stage.after, hcase]
    rw [hafter]
    cases hto : handedTo (handle L.socks client).events with
    | none => exact .inr (.inl rfl)
    | some i => exact .inr (.inr ⟨i, rfl, asked_of_handedTo hend hto⟩)

/-! ### The invariant -/

/-- The accepted connection `j` is the connection `c` of the socket with the index `i`. -/
def Front.At {k : Conf} (s : Front k) (j i : Nat) (c : ConnId) : Prop :=
  ∃ client, s.conns[j]? = some (.registered client i c)

/-- The client behind a connection that is given to a socket asked for that socket. -/
def Stage.Ok (L : Listener) : Stage → Prop
  | .offered client i => Asked L client i
  | .registered client i _ => Asked L client i
  | _ => True

/-- The accepted connections and the connections of the sockets belong together: each connection of
a socket comes from exactly one that was accepted. While the process runs, no socket has
panicked. -/
structure Front.Inv (L : Listener) (s : Front L.conf) : Prop where
  stage : ∀ x ∈ s.conns, x.Ok L
  /-- The connections of the sockets are accepted connections. -/
  iff : ∀ i c, c < (s.sock i).numConns ↔ ∃ j, s.At j i c
  unique : ∀ j j' i c, s.At j i c → s.At j' i c → j = j'
  alive : s.exited = false → ∀ i, (s.sock i).panic = none

/-- A step that leaves the numbers of connections and the registered ones as they are. -/
theorem Front.Inv.of_at (h : s.Inv L) (hstage : ∀ x ∈ s'.conns, x.Ok L)
    (hnum : ∀ i, (s'.sock i).numConns = (s.sock i).numConns)
    (hat : ∀ j i c, s'.At j i c ↔ s.At j i c)
    (halive : s'.exited = false → ∀ i, (s'.sock i).panic = none) : s'.Inv L where
  stage := hstage
  iff i c := by simp only [hnum, hat, h.iff]
  unique j j' i c hj hj' := h.unique j j' i c ((hat j i c).mp hj) ((hat j' i c).mp hj')
  alive := halive

/-- A stage in the list is replaced. -/
theorem getElem?_set_of_some {α : Type} {xs : List α} {j : Nat} {x : α} (h : xs[j]? = some x)
    (y : α) (j' : Nat) : (xs.set j y)[j']? = if j' = j then some y else xs[j']? := by
  obtain ⟨hlt, -⟩ := List.getElem?_eq_some_iff.mp h
  rw [List.getElem?_set]
  simp [hlt, eq_comm]

/-- As long as the process runs after a step of one socket, no socket has panicked. -/
theorem panic_setSock {i : Nat} {d : State L.conf} (hs : ∀ i, (s.sock i).panic = none)
    (h : (s.setSock i d).exited = false) (i' : Nat) : ((s.setSock i d).sock i').panic = none := by
  refine (Function.forall_update_iff s.sock fun _ d => d.panic = none).mpr
    ⟨?_, fun i _ => hs i⟩ i'
  simpa [Front.setSock] using h

/-- A step of the process keeps the bookkeeping. -/
theorem Front.Inv.step {l : FrontLabel L.conf} (h : s.Inv L) (hsocks : ∀ i, Daemon.Inv (s.sock i))
    (hstep : Front.step L.socks s l = some s') : s'.Inv L := by
  obtain ⟨hexited, hmove⟩ := Front.step_cases hstep
  have hpanic := h.alive hexited
  cases hmove with
  | accept =>
      refine h.of_at ?_ (fun _ => rfl) ?_ (fun _ => hpanic)
      · intro x hx
        rcases List.mem_append.mp hx with hx | hx
        · exact h.stage x hx
        · rw [List.mem_singleton.mp hx]
          trivial
      · intro j i c
        refine exists_congr fun client => ?_
        by_cases hj : j < s.conns.length
        · rw [List.getElem?_append_left hj]
        · rw [List.getElem?_append_right (Nat.le_of_not_lt hj),
            List.getElem?_eq_none (Nat.le_of_not_lt hj)]
          cases j - s.conns.length <;> simp
  | acceptError => exact h.of_at h.stage (fun _ => rfl) (fun _ _ _ => .rfl) (by simp)
  | @handle j client hj =>
      refine h.of_at ?_ (fun _ => rfl) ?_ (fun _ => hpanic)
      · intro x hx
        rcases List.mem_or_eq_of_mem_set hx with hx | rfl
        · exact h.stage x hx
        · rcases after_cases (L := L) client with hafter | hafter | ⟨i, hafter, hasked⟩
          · rw [hafter]
            trivial
          · rw [hafter]
            trivial
          · rw [hafter]
            exact hasked
      · intro j' i c
        refine exists_congr fun client' => ?_
        rw [getElem?_set_of_some hj]
        split
        · rename_i hjj
          subst hjj
          rw [hj]
          rcases after_cases (L := L) client with hafter | hafter | ⟨i, hafter, -⟩ <;> simp [hafter]
        · rfl
  | @newConn j i client d hj hnew =>
      have hnum : d.numConns = (s.sock i).numConns + 1 := (hsocks i).numConns_step hnew
      -- The new connection of socket `i` is the one that was on its way.
      have hat : ∀ j' i' c, Front.At { s.setSock i d with
          conns := s.conns.set j (.registered client i (s.sock i).numConns) } j' i' c ↔
          (j' = j ∧ i' = i ∧ c = (s.sock i).numConns) ∨ s.At j' i' c := by
        intro j' i' c
        simp only [Front.At, getElem?_set_of_some hj]
        split
        · rename_i hjj
          subst hjj
          simp only [hj, Option.some.injEq, Stage.registered.injEq, true_and, reduceCtorEq,
            exists_false, or_false]
          exact ⟨fun ⟨_, _, hi, hc⟩ => ⟨hi.symm, hc.symm⟩,
            fun ⟨hi, hc⟩ => ⟨client, rfl, hi.symm, hc.symm⟩⟩
        · rename_i hne
          simp only [hne, false_and, false_or]
      have hfresh : ∀ j', ¬ s.At j' i (s.sock i).numConns := fun j' hj' =>
        Nat.lt_irrefl _ ((h.iff _ _).mpr ⟨j', hj'⟩)
      refine ⟨?_, ?_, ?_, ?_⟩
      · intro x hx
        rcases List.mem_or_eq_of_mem_set hx with hx | rfl
        · exact h.stage x hx
        · have hasked : (Stage.offered client i).Ok L := h.stage _ (List.mem_of_getElem? hj)
          exact hasked
      · intro i' c
        simp only [hat, exists_or, ← h.iff]
        by_cases hi : i' = i
        · subst hi
          simp only [Front.setSock, Function.update_self, hnum, true_and, exists_eq_left]
          exact Nat.lt_succ_iff_lt_or_eq.trans or_comm
        · simp [Front.setSock, hi]
      · intro j₁ j₂ i' c h₁ h₂
        rcases (hat _ _ _).mp h₁ with ⟨rfl, rfl, rfl⟩ | hold₁
        · rcases (hat _ _ _).mp h₂ with ⟨rfl, -, -⟩ | hold₂
          · rfl
          · exact absurd hold₂ (hfresh j₂)
        · rcases (hat _ _ _).mp h₂ with ⟨rfl, rfl, rfl⟩ | hold₂
          · exact absurd hold₁ (hfresh j₁)
          · exact h.unique j₁ j₂ i' c hold₁ hold₂
      · intro hexit
        exact panic_setSock hpanic hexit
  | @sock i l d hi hl hsock =>
      refine h.of_at h.stage ?_ (fun _ _ _ => .rfl) fun hexit => panic_setSock hpanic hexit
      refine (Function.forall_update_iff s.sock
        fun i d => d.numConns = (s.sock i).numConns).mpr ⟨?_, fun _ _ => rfl⟩
      rw [(hsocks i).numConns_step hsock, hl]
      rfl

/-- In every state of the process the connections of the sockets are accepted connections. -/
theorem inv_of_front (h : (front L).Reachable s) : s.Inv L := by
  refine h.invariant (P := fun s => s.Inv L) ?_ fun s l s' hr hs hstep =>
    hs.step (sock_inv hr) hstep
  exact ⟨by simp [front, Front.initial], by simp [front, Front.initial, State.initial, Front.At],
    by simp [front, Front.initial, Front.At], fun _ _ => rfl⟩

/-! ### Connections stay where they are -/

/-- What a connection in the first stage can be later. -/
inductive Stage.Later : Stage → Stage → Prop
  | refl (x : Stage) : Stage.Later x x
  | handled (x : Stage) : Stage.Later .handling x
  | taken (client : Behaviour) (i : Nat) (c : ConnId) :
      Stage.Later (.offered client i) (.registered client i c)

/-- What is later than a later stage is later. -/
theorem Stage.Later.trans {x y z : Stage} (h : x.Later y) (h' : y.Later z) : x.Later z := by
  cases h with
  | refl _ => exact h'
  | handled _ => exact .handled z
  | taken client i c =>
      cases h'
      exact .taken client i c

/-- A step takes an accepted connection to a later stage or leaves it. -/
theorem later_of_step {l : FrontLabel L.conf} (hstep : Front.step L.socks s l = some s') {j : Nat}
    {x : Stage} (hx : s.conns[j]? = some x) : ∃ y, s'.conns[j]? = some y ∧ x.Later y := by
  cases (Front.step_cases hstep).2 with
  | accept =>
      obtain ⟨hlt, -⟩ := List.getElem?_eq_some_iff.mp hx
      exact ⟨x, by rw [List.getElem?_append_left hlt, hx], .refl x⟩
  | acceptError | sock => exact ⟨x, hx, .refl x⟩
  | @handle j' client hj =>
      rw [getElem?_set_of_some hj]
      split
      · rename_i hjj
        subst hjj
        obtain rfl : Stage.handling = x := Option.some.inj (hj.symm.trans hx)
        exact ⟨_, rfl, .handled _⟩
      · exact ⟨x, hx, .refl x⟩
  | @newConn j' i client d hj hnew =>
      rw [getElem?_set_of_some hj]
      split
      · rename_i hjj
        subst hjj
        obtain rfl : Stage.offered client i = x := Option.some.inj (hj.symm.trans hx)
        exact ⟨_, rfl, .taken client i _⟩
      · exact ⟨x, hx, .refl x⟩

/-- A run takes an accepted connection to a later stage or leaves it. -/
theorem later_of_run (h : ((front L).startAt s).Reachable s') {j : Nat} {x : Stage}
    (hx : s.conns[j]? = some x) : ∃ y, s'.conns[j]? = some y ∧ x.Later y := by
  refine h.invariant (P := fun t => ∃ y, t.conns[j]? = some y ∧ x.Later y) ⟨x, hx, .refl x⟩ ?_
  rintro t l t' - ⟨y, hy, hxy⟩ hstep
  obtain ⟨z, hz, hyz⟩ := later_of_step hstep hy
  exact ⟨z, hz, hxy.trans hyz⟩

/-- The connections of the sockets behind a listening socket are accepted connections, and each of
them is a different one. A client is at the socket it asked for, which is the one whose descriptor
it was sent. A connection that was closed stays closed, one that was given to a socket stays with
it, and one on its way to a socket gets nowhere else. -/
theorem connections_kept (h : (front L).Reachable s) :
    (∀ i c, c < (s.sock i).numConns ↔ ∃ j, s.At j i c) ∧
    (∀ j j' i c, s.At j i c → s.At j' i c → j = j') ∧
    (∀ (j : Nat) client i c, s.conns[j]? = some (Stage.registered client i c) → Asked L client i) ∧
    ∀ s', ((front L).startAt s).Reachable s' → ∀ (j : Nat) (x : Stage), s.conns[j]? = some x →
      ∃ y, s'.conns[j]? = some y ∧ x.Later y := by
  have hinv := inv_of_front h
  refine ⟨hinv.iff, hinv.unique, fun j client i c hj => ?_, fun s' hrun j x => later_of_run hrun⟩
  exact hinv.stage _ (List.mem_of_getElem? hj)

/-- What `RunTestimony` starts `Testimony.run` with, for an entry whose sockets could be set up. -/
def Listener.ofServed {env : Env} {sc : ConfigEntry} {id : Int} {socks : List Socket}
    (h : newSockets env sc id = .ok socks) (hpos : 0 < sc.numBlocks) : Listener where
  socks := socks
  conf := ⟨sc.numBlocks.toNat, by omega⟩
  numBlocks_eq := numBlocks_of_newSockets h

/-- A client that asks for the second of two sockets. -/
def secondClient : Behaviour :=
  ⟨fun _ => none, [.data 0xC0 [0x07, 0, 4, 0, 0, 0, 1]], .ok (1, 24)⟩

/-- A client that asks for the second of two sockets is offered to it. -/
theorem secondClient_offered : ∃ socks, newSockets quietEnv (twoSockets "a" 0) 1 = .ok socks ∧
    Stage.after secondClient (handle socks secondClient) = .offered secondClient 1 ∧
    (handle socks secondClient).ending = .returned := by
  obtain ⟨socks, hsocks, hhandle⟩ := ok_of_toOption
    (f := fun socks =>
      (handedTo (handle socks secondClient).events, (handle socks secondClient).ending))
    (show (newSockets quietEnv (twoSockets "a" 0) 1).toOption.map (fun socks =>
        (handedTo (handle socks secondClient).events, (handle socks secondClient).ending)) =
      some (some 1, .returned) by decide +kernel)
  obtain ⟨hto, hend⟩ := Prod.mk.inj hhandle
  exact ⟨socks, hsocks, by simp only [Stage.after, hend, hto, Option.elim], hend⟩

/-- Two clients ask for the second socket, and the one that connected last is the first to get
there. -/
theorem connections_kept_second : ∃ (L : Listener) (s : Front L.conf),
    (front L).exec (.initial L.conf) [.accept, .accept, .handle 1 secondClient,
      .handle 0 secondClient, .newConn 1, .newConn 0] = some s ∧
    s.At 1 1 0 ∧ (∃ j, s.At j 1 1) ∧ Asked L secondClient 1 := by
  obtain ⟨socks, hsocks, hafter, hend⟩ := secondClient_offered
  let L := Listener.ofServed hsocks (by decide)
  obtain ⟨s, hs, hconns, hnum⟩ : ∃ s : Front L.conf,
      (front L).exec (.initial L.conf) [.accept, .accept, .handle 1 secondClient,
        .handle 0 secondClient, .newConn 1, .newConn 0] = some s ∧
      s.conns = [.registered secondClient 1 1, .registered secondClient 1 0] ∧
      (s.sock 1).numConns = 2 := by
    simp only [System.exec, front, Front.step, Front.handle, Front.initial, L, Listener.ofServed,
      hafter, hend]
    exact ⟨_, rfl, rfl, rfl⟩
  obtain ⟨hiff, -, hasked, -⟩ := connections_kept (System.reachable_of_exec hs)
  refine ⟨L, s, hs, ⟨secondClient, by rw [hconns]; rfl⟩, (hiff 1 1).mp (by omega), ?_⟩
  exact hasked 1 secondClient 1 0 (by rw [hconns]; rfl)

/-! ### Connections get where they are going -/

/-- The steps of the process when nobody connects: the sockets do what they do by themselves, with
some clients slow and some gone, and take the connections that are sent to them. -/
def ByItself {k : Conf} (slow gone : Nat → Set ConnId) (s : Front k) : FrontLabel k → Prop
  | .newConn _ => True
  | .sock i l => Own (slow i) (gone i) (s.sock i) l
  | _ => False

/-- What the sockets do by themselves has no stale load. -/
theorem ByItself.each {k : Conf} {slow gone : Nat → Set ConnId} {s : Front k} {l : FrontLabel k}
    (h : ByItself slow gone s l) : Each NoStaleLoad s l := by
  cases l with
  | sock i l => exact h.1
  | _ => trivial

/-- A step that needs nothing from outside makes no connection. -/
theorem isNewConn_eq_of_external {k : Conf} {l : Label k} (h : l.external = false) :
    l.isNewConn = false := by
  cases l with
  | run ch => cases ch <;> first | rfl | cases h
  | _ => rfl

variable {slow gone : Nat → Set ConnId}

/-- A run of one socket is a run of the process. -/
theorem run_of_sock {i : Nat} {d : State L.conf} (hi : i < L.socks.length) (hs : s.exited = false)
    (h : ((system L.conf).startAt (s.sock i)).ReachableBy (Own (slow i) (gone i)) d)
    (hd : d.panic = none) :
    ((front L).startAt s).ReachableBy (ByItself slow gone) (s.setSock i d) := by
  induction h with
  | init =>
      change (s.sock i).panic = none at hd
      have heq : s.setSock i (s.sock i) = s := by
        simp only [Front.setSock, Function.update_eq_self, hd, Option.isSome_none, ← hs]
      change ((front L).startAt s).ReachableBy (ByItself slow gone) (s.setSock i (s.sock i))
      rw [heq]
      exact .refl s
  | @step d d' l _ hown hstep ih =>
      have hpanic := (Daemon.step_cases hstep).1
      have hsock : (s.setSock i d).sock i = d := Function.update_self ..
      have hfront : (front L).step (s.setSock i d) (.sock i l) = some (s.setSock i d') := by
        have hnew : l.isNewConn = false := isNewConn_eq_of_external hown.external_eq
        change Front.step L.socks (s.setSock i d) (.sock i l) = some (s.setSock i d')
        simp only [Front.step, Front.sockStep, Front.setSock, hpanic, hi, hnew, Option.isSome_none,
          Bool.false_eq_true, if_false, and_self, if_true, Function.update_self]
        rw [show step d l = some d' from hstep, Option.map_some, Front.setSock,
          Function.update_idem]
      exact .step (ih hpanic) (e := .sock i l) (by simpa only [ByItself, hsock] using hown) hfront

/-- The connection waits for its socket. -/
def Stage.isOffered : Stage → Bool
  | .offered _ _ => true
  | _ => false

/-- The socket that a connection is sent to gets to its `select`, and takes it. -/
theorem exists_newConn (slow gone : Nat → Set ConnId)
    (h : (front L).ReachableBy (Each NoStaleLoad) s) (hs : s.exited = false) {j i : Nat}
    {client : Behaviour} (hj : s.conns[j]? = some (.offered client i)) :
    ∃ s' c, ((front L).startAt s).ReachableBy (ByItself slow gone) s' ∧ s'.exited = false ∧
      s'.conns = s.conns.set j (.registered client i c) := by
  have hinv := inv_of_front h.reachable
  obtain ⟨sock, hsock, -, -⟩ : Asked L client i := hinv.stage _ (List.mem_of_getElem? hj)
  obtain ⟨hi, -⟩ := List.getElem?_eq_some_iff.mp hsock
  obtain ⟨d, hrun, ⟨-, hd⟩, hrest⟩ := exists_rest (slow i) (gone i)
    (sock_reachable (fun _ => trivial) h i) (hinv.alive hs i)
  have hselect := hrest.still.run_eq hd
  have hnew : Front.step L.socks (s.setSock i d) (.newConn j) =
      some { s.setSock i (addNewConn d) with
        conns := s.conns.set j (.registered client i d.numConns) } := by
    have hstep : step d (.run .newConn) = some (addNewConn d) := by
      simp [step, hd, runStep, hselect]
    simp only [Front.step, Front.newConn, Front.setSock, hd, hj, hstep, Option.isSome_none,
      Bool.false_eq_true, if_false, Function.update_self, Function.update_idem, Option.map_some]
  exact ⟨_, d.numConns, .step (run_of_sock hi hs hrun hd) (e := .newConn j) trivial hnew,
    by simpa [Front.setSock, addNewConn] using hd, rfl⟩

/-- The connections on their way in `s` have got there, and the others are where they were. -/
def Arrived (s s' : Front L.conf) : Prop :=
  ∀ j : Nat, s'.conns[j]? = s.conns[j]? ∨ ∃ client i c,
    s.conns[j]? = some (Stage.offered client i) ∧ s'.conns[j]? = some (Stage.registered client i c)

/-- It stays so when one more connection is taken. -/
theorem Arrived.set {t t' : Front L.conf} (h : Arrived s t) {j i : Nat} {client : Behaviour}
    {c : ConnId} (hj : t.conns[j]? = some (.offered client i))
    (ht' : t'.conns = t.conns.set j (.registered client i c)) : Arrived s t' := by
  intro j'
  rw [ht', getElem?_set_of_some hj]
  split
  · rename_i hjj
    subst hjj
    rcases h j' with heq | ⟨client', i', c', -, hreg⟩
    · exact .inr ⟨client, i, c, heq.symm.trans hj, rfl⟩
    · rw [hj] at hreg
      cases hreg
  · exact h j'

/-- With each connection that is taken one less waits. -/
theorem countP_set_registered {xs : List Stage} {j i : Nat} {client : Behaviour} {c : ConnId}
    (hj : xs[j]? = some (.offered client i)) :
    (xs.set j (.registered client i c)).countP Stage.isOffered < xs.countP Stage.isOffered := by
  obtain ⟨hlt, hx⟩ := List.getElem?_eq_some_iff.mp hj
  have hpos : 0 < xs.countP Stage.isOffered :=
    List.countP_pos_iff.mpr ⟨_, List.mem_of_getElem? hj, rfl⟩
  rw [List.countP_set hlt, hx]
  simp only [Stage.isOffered, if_true, Bool.false_eq_true, if_false]
  omega

/-- Nothing keeps the connections that `handle` has sent to a socket from getting there, whatever
their clients and those before them do: from every state of a run without a stale load in any
socket, and without a step from outside, the process can come to a state where all of them are
registered. -/
theorem offers_taken (slow gone : Nat → Set ConnId)
    (h : (front L).ReachableBy (Each NoStaleLoad) s) (hs : s.exited = false) :
    ∃ s', ((front L).startAt s).ReachableBy (ByItself slow gone) s' ∧ s'.exited = false ∧
      Arrived s s' ∧ ∀ x ∈ s'.conns, x.isOffered = false := by
  have hrun := System.exists_of_measure (M := front L) (G := ByItself slow gone)
    (P := fun t => (front L).ReachableBy (Each NoStaleLoad) t ∧ t.exited = false ∧ Arrived s t)
    (R := fun t => ∀ x ∈ t.conns, x.isOffered = false)
    (fun t => t.conns.countP Stage.isOffered) ?_ ⟨h, hs, fun _ => .inl rfl⟩
  · obtain ⟨s', hrun, ⟨-, hs', harrived⟩, hnone⟩ := hrun
    exact ⟨s', hrun, hs', harrived, hnone⟩
  rintro t ⟨ht, halive, harrived⟩
  by_cases hnone : ∀ x ∈ t.conns, x.isOffered = false
  · exact .inl hnone
  · -- One of those on their way arrives, which leaves one less.
    obtain ⟨x, hx, hoffered⟩ : ∃ x ∈ t.conns, x.isOffered = true := by
      simpa using hnone
    cases x with
    | offered client i =>
        obtain ⟨j, hj⟩ := List.mem_iff_getElem?.mp hx
        obtain ⟨t', c, hrun, halive', hconns⟩ := exists_newConn slow gone ht halive hj
        refine .inr ⟨t', hrun, ⟨?_, halive', harrived.set hj hconns⟩, ?_⟩
        · exact ht.trans (hrun.mono fun _ _ hG => hG.each)
        · rw [hconns]
          exact countP_set_registered hj
    | handling | registered _ _ _ | closed => cases hoffered

/-- The first client, on its way to the second socket. -/
theorem offers_taken_second : ∃ (L : Listener) (s s' : Front L.conf),
    s.conns = [.offered secondClient 1] ∧
    ((front L).startAt s).ReachableBy (ByItself (fun _ => ∅) fun _ => ∅) s' ∧
    ∃ c, s'.conns[0]? = some (.registered secondClient 1 c) := by
  obtain ⟨socks, hsocks, hafter, hend⟩ := secondClient_offered
  let L := Listener.ofServed hsocks (by decide)
  obtain ⟨s, hs, hconns, hexited⟩ : ∃ s : Front L.conf,
      (front L).ReachableBy (Each NoStaleLoad) s ∧ s.conns = [.offered secondClient 1] ∧
      s.exited = false := by
    have hhandle : (front L).step { Front.initial L.conf with conns := [.handling] }
        (.handle 0 secondClient) =
        some { Front.initial L.conf with conns := [.offered secondClient 1] } := by
      simp only [front, Front.step, Front.handle, Front.initial, L, Listener.ofServed, hafter, hend]
      rfl
    have haccept : (front L).ReachableBy (Each NoStaleLoad)
        { Front.initial L.conf with conns := [.handling] } := .step .init (e := .accept) trivial rfl
    exact ⟨_, .step haccept (e := .handle 0 secondClient) trivial hhandle, rfl, rfl⟩
  obtain ⟨s', hrun, -, harrived, hnone⟩ := offers_taken (fun _ => ∅) (fun _ => ∅) hs hexited
  refine ⟨L, s, s', hconns, hrun, ?_⟩
  rcases harrived 0 with heq | ⟨client, i, c, hoffered, hreg⟩
  · rw [hconns] at heq
    cases hnone _ (List.mem_of_getElem? heq)
  · rw [hconns] at hoffered
    cases hoffered
    exact ⟨c, hreg⟩

end Testimony.Daemon
