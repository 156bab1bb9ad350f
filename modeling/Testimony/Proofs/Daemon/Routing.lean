import Testimony.Daemon.Serve
import Testimony.Proofs.Daemon.Fanout
import Testimony.Proofs.GoClient.Read

/-!
# `Testimony.Proofs.Daemon.Routing`: where a connection goes

A call of `handle` hands the connection to the one socket the client asked for, or closes it. Up to
the fanout index it does neither (`Handling.Early`), and then it does one of them.

All of this needs a first socket: `socks[0]` is taken before anything is checked.
`routed_iff` says which configurations have one for every connection.
-/

set_option autoImplicit false

namespace Testimony.Daemon

open Lib Lib.BigEndian Wire

/-- Writes do not decide where a connection goes. -/
def HandleEvent.routes : HandleEvent → Bool
  | .write _ => false
  | _ => true

/-- What `handle` does about where the connection goes. -/
def routing (events : List HandleEvent) : List HandleEvent := events.filter HandleEvent.routes

/-- Events are collected one after the other. -/
theorem routing_append (events events' : List HandleEvent) :
    routing (events ++ events') = routing events ++ routing events' := List.filter_append ..

/-- The client has sent a well-formed `FanoutIndex` TLV with the index `k`. -/
def Behaviour.Sends (client : Behaviour) (k : Nat) : Prop :=
  ∃ (x : UInt32) (rest : List UInt8), x.toNat = k ∧
    Seg.pending client.segs = putUint32 (toTL typeFanoutIndex 4) ++ putUint32 x ++ rest

/-- The client has not sent a whole message, and has not closed the connection either. -/
def Behaviour.Silent (client : Behaviour) : Prop :=
  (Seg.pending client.segs).length < 8 ∧ Seg.ending client.segs = .blocked

/-- The connection went where it should. -/
structure Routed (socks : List Socket) (client : Behaviour) (r : HandleResult) : Prop where
  not_panicked : r.ending ≠ .panicked
  /-- It was given to the socket the client asked for, with the descriptor of that socket, or it was
  closed. -/
  returned : r.ending = .returned → routing r.events = [.close] ∨
    ∃ k sock, socks[k]? = some sock ∧ client.Sends k ∧
      routing r.events = [.sendFd k sock.fd, .handOff k]
  /-- There is no other ending as long as the client does something. -/
  waiting : r.ending = .waiting → client.Silent ∧ routing r.events = []

/-! ### Up to the fanout index -/

section
variable {client : Behaviour} {α β : Type}

/-- A part of `handle` that does not decide where the connection goes. If it is not the end, `P`
holds of what it returns. -/
def Handling.Early (client : Behaviour) (f : Handling α) (P : α → Prop) : Prop :=
  ∀ events, routing events = [] →
    match f events with
    | .ok a events' => routing events' = [] ∧ P a
    | .error (.returns _) events' => routing events' = []
    | .error .panics _ => False
    | .error .waits events' => routing events' = [] ∧ client.Silent

/-- A constant does not decide where the connection goes. -/
theorem Handling.Early.pure {P : α → Prop} {a : α} (h : P a) :
    Handling.Early client (Pure.pure a) P :=
  fun _ hevents => ⟨hevents, h⟩

/-- Neither does an early return. -/
theorem Handling.Early.returns {P : α → Prop} (log : HandleLog) :
    Handling.Early client (throw (.returns log)) P :=
  fun _ hevents => hevents

/-- Neither does a sequence of two parts that do not. -/
theorem Handling.Early.bind {f : Handling α} {g : α → Handling β} {P : α → Prop} {Q : β → Prop}
    (hf : Handling.Early client f P) (hg : ∀ a, P a → Handling.Early client (g a) Q) :
    Handling.Early client (f >>= g) Q := by
  intro events hevents
  have hfirst := hf events hevents
  cases hrun : f events with
  | ok a events' =>
      rw [hrun] at hfirst
      rw [bind_ok hrun]
      exact hg a hfirst.2 events' hfirst.1
  | error stop events' =>
      rw [hrun] at hfirst
      rw [bind_error hrun]
      cases stop <;> exact hfirst

/-- A write to the client does not decide where the connection goes. -/
theorem early_writeConn (i : Nat) (bytes : List UInt8) (log : Nat → HandleLog) :
    Handling.Early client (writeConn client i bytes log) fun _ => True := by
  intro events hevents
  rw [writeConn]
  cases client.write i with
  | none =>
      refine ⟨?_, trivial⟩
      rw [routing_append, hevents]
      rfl
  | some e => exact hevents

/-- Neither does a message. -/
theorem early_sendConn (i : Nat) (msg : Except SendError (List UInt8)) (log : HandleLog) :
    Handling.Early client (sendConn client i msg log) fun _ => True := by
  cases msg with
  | ok bytes => exact early_writeConn i bytes _
  | error e => exact .returns log

/-- The message is what the client sent first. -/
theorem early_readFanoutMsg : Handling.Early client (readFanoutMsg client) fun fanoutMsg =>
    fanoutMsg = (Seg.pending client.segs).take 8 ∧ 8 ≤ (Seg.pending client.segs).length := by
  rw [readFanoutMsg]
  rcases GoClient.readFull_cases 8 client.segs with
    ⟨segs', hrun, hlen⟩ | ⟨e, segs', hrun, hlen, hblocked⟩
  · rw [hrun]
    exact .pure ⟨rfl, hlen⟩
  · rw [hrun]
    -- Too few bytes: an error, or waiting for more of them.
    cases e with
    | blocked => exact fun events hevents => ⟨hevents, hlen, hblocked.mp rfl⟩
    | fail err => cases err <;> exact .returns _

/-- An index that passes is in range, and it is the one in the message. -/
theorem early_fanoutIndex (n : Nat) {fanoutMsg : List UInt8}
    (hmsg : fanoutMsg = (Seg.pending client.segs).take 8)
    (hlen : 8 ≤ (Seg.pending client.segs).length) :
    Handling.Early client (fanoutIndex n fanoutMsg) fun k => k < n ∧ client.Sends k := by
  unfold fanoutIndex
  by_cases hhead : uint32 (fanoutMsg.take 4) ≠ toTL typeFanoutIndex 4
  · rw [if_pos hhead]
    exact .returns _
  · rw [if_neg hhead]
    by_cases hrange : n ≤ (uint32 (fanoutMsg.drop 4)).toNat
    · rw [if_pos hrange]
      exact .returns _
    · rw [if_neg hrange]
      refine .pure ⟨Nat.lt_of_not_le hrange, uint32 (fanoutMsg.drop 4),
        (Seg.pending client.segs).drop 8, rfl, ?_⟩
      -- The two numbers of the message are its eight bytes.
      have hfirst : (fanoutMsg.take 4).length = 4 := by simp [hmsg, hlen]
      have hsecond : (fanoutMsg.drop 4).length = 4 := by simp [hmsg, hlen]
      rw [← not_ne_iff.mp hhead, putUint32_uint32 hfirst, putUint32_uint32 hsecond,
        List.take_append_drop, hmsg, List.take_append_drop]

/-- Greeting the client and reading its choice do not decide it either. If they come to their end,
the client has sent the index of a socket that exists. -/
theorem early_greetAndRead (n : Nat) (conf : SocketConfig) :
    Handling.Early client (greetAndRead n conf client) fun k => k < n ∧ client.Sends k := by
  refine .bind (early_sendConn _ _ _) fun _ _ => .bind (early_sendConn _ _ _) fun _ _ => ?_
  refine .bind (early_sendConn _ _ _) fun _ _ => .bind (early_sendConn _ _ _) fun _ _ => ?_
  exact .bind early_readFanoutMsg fun fanoutMsg hmsg => early_fanoutIndex n hmsg.1 hmsg.2

end

/-- The steps of `handle` that a client can see come to the same index. -/
theorem afterFanoutMsg_eq (fds : List Nat) (fanoutMsg : List UInt8) (events : List HandleEvent) :
    afterFanoutMsg fds fanoutMsg =
      match fanoutIndex fds.length fanoutMsg events with
      | .ok k _ => (fds[k]?).elim .closed .writeFd
      | .error _ _ => .closed := by
  unfold afterFanoutMsg fanoutIndex
  by_cases hhead : uint32 (fanoutMsg.take 4) ≠ toTL typeFanoutIndex 4
  · rw [if_pos hhead, if_pos hhead]
    rfl
  · rw [if_neg hhead, if_neg hhead]
    by_cases hrange : fds.length ≤ (uint32 (fanoutMsg.drop 4)).toNat
    · rw [if_pos hrange, List.getElem?_eq_none hrange]
      rfl
    · rw [if_neg hrange]
      show _ = (fds[(uint32 (fanoutMsg.drop 4)).toNat]?).elim HandlePc.closed HandlePc.writeFd
      cases fds[(uint32 (fanoutMsg.drop 4)).toNat]? <;> rfl

/-! ### The whole call -/

/-- The end of `handle`, with the index. -/
def passTo (socks : List Socket) (client : Behaviour) (idx : Nat) : Handling Unit :=
  match socks[idx]? with
  | none => throw .panics
  | some sock => passOn client idx sock

/-- With at least one socket, `handle` greets the client, reads its choice and passes it to the
socket. -/
theorem handleBody_cons (first : Socket) (rest : List Socket) (client : Behaviour) :
    handleBody (first :: rest) client =
      (writeConn client 0 [protocolVersion] .version >>= fun _ =>
        greetAndRead (first :: rest).length first.conf.toSocketConfig client) >>=
      passTo (first :: rest) client := by
  rw [bind_assoc]
  rfl

/-- With a first socket, a connection is always routed. -/
theorem routed_of_ne_nil {socks : List Socket} (hsocks : socks ≠ []) (client : Behaviour) :
    Routed socks client (handle socks client) := by
  obtain ⟨first, rest, rfl⟩ := List.exists_cons_of_ne_nil hsocks
  have hversion : Handling.Early client _ _ := early_writeConn 0 [protocolVersion] .version
  have hearly := hversion.bind
    (fun _ _ => early_greetAndRead (first :: rest).length first.conf.toSocketConfig) [] rfl
  rw [handle, handleBody_cons]
  generalize (writeConn client 0 [protocolVersion] .version >>= fun _ =>
    greetAndRead (first :: rest).length first.conf.toSocketConfig client) = f at hearly ⊢
  -- Up to the index, nothing has happened to the connection.
  cases hrun : f [] with
  | error stop events =>
      rw [hrun] at hearly
      rw [bind_error hrun]
      cases stop with
      | returns log =>
          refine ⟨by simp, fun _ => .inl ?_, by simp⟩
          rw [routing_append, show routing events = [] from hearly]
          rfl
      | panics => exact hearly.elim
      | waits => exact ⟨by simp, by simp, fun _ => ⟨hearly.2, hearly.1⟩⟩
  | ok k events =>
      rw [hrun] at hearly
      obtain ⟨hevents, hk, hsends⟩ := hearly
      have hpass : passTo (first :: rest) client k = passOn client k (first :: rest)[k] := by
        rw [passTo, List.getElem?_eq_getElem hk]
      rw [bind_ok hrun, hpass]
      -- The descriptor is the first thing that goes out, and only then the hand-over.
      by_cases hwritten : client.writeMsg = .ok (1, 24)
      · simp only [passOn, if_pos hwritten]
        refine ⟨by simp, fun _ => .inr ⟨k, _, List.getElem?_eq_getElem hk, hsends, ?_⟩, by simp⟩
        rw [routing_append, hevents]
        rfl
      · simp only [passOn, if_neg hwritten]
        refine ⟨by simp, fun _ => .inl ?_, by simp⟩
        rw [routing_append, hevents]
        rfl

/-- A client that connects and does nothing. -/
def idleClient : Behaviour := ⟨fun _ => none, [], .ok (1, 24)⟩

/-- Without a socket, connecting is enough to make `handle` panic. -/
theorem handle_nil : (handle [] idleClient).ending = .panicked := rfl

/-! ### Every connection of a configuration -/

/-- The entries that are served have as many sockets as their `FanoutSize` says. -/
theorem Served.length_eq {env : Env} {t : List ConfigEntry} {ids : List Int}
    {all : List (List Socket)} (h : Served env t ids all) {p : ConfigEntry × List Socket}
    (hp : p ∈ t.zip all) : p.2.length = p.1.fanoutSize.toNat := by
  induction h with
  | nil => cases hp
  | cons hsocks hrest ih =>
      rcases List.mem_cons.mp hp with rfl | hp
      · exact (groups_of_newSockets hsocks).1
      · exact ih hp

/-- The default turns zero into one, so only a negative `FanoutSize` leaves an entry without a
socket. -/
theorem toNat_withDefault_eq_zero (sc : ConfigEntry) :
    sc.withDefault.fanoutSize.toNat = 0 ↔ sc.fanoutSize < 0 := by
  unfold ConfigEntry.withDefault
  split
  · rename_i hzero
    simp [hzero]
  · rename_i hne
    omega

/-- In a configuration that is served, the connections to an entry are all routed exactly if its
`FanoutSize` in the file is not negative. -/
theorem routed_iff (env : Env) (t : List ConfigEntry) (all : List (List Socket))
    (h : daemonMain env t = .ok all) (p : ConfigEntry × List Socket) (hp : p ∈ t.zip all) :
    (∀ client, Routed p.2 client (handle p.2 client)) ↔ 0 ≤ p.1.fanoutSize := by
  have hlen : p.2.length = p.1.withDefault.fanoutSize.toNat := by
    have hmem : (p.1.withDefault, p.2) ∈ (t.map ConfigEntry.withDefault).zip all := by
      rw [List.zip_map_left]
      exact List.mem_map.mpr ⟨p, hp, rfl⟩
    exact (served_of_runTestimony h).length_eq hmem
  have hnil : p.2 = [] ↔ p.1.fanoutSize < 0 := by
    rw [← toNat_withDefault_eq_zero, ← hlen, List.length_eq_zero_iff]
  constructor
  · intro hall
    by_contra hneg
    have hpanics := (hall idleClient).not_panicked
    rw [hnil.mpr (Int.not_le.mp hneg)] at hpanics
    exact hpanics handle_nil
  · intro hnonneg
    exact routed_of_ne_nil fun hempty => Int.not_lt.mpr hnonneg (hnil.mp hempty)

/-- An entry with a given `FanoutSize`. -/
def fanoutEntry (fanoutSize : Int) : ConfigEntry :=
  { twoSockets "a" 0 with fanoutSize := fanoutSize }

/-- A `FanoutSize` that is left out in the file. -/
theorem routed_iff_default :
    ∃ socks, daemonMain quietEnv [fanoutEntry 0] = .ok [socks] ∧
      ∀ client, Routed socks client (handle socks client) := by
  obtain ⟨all, hall, hlen⟩ := ok_of_toOption (f := List.length)
    (show (daemonMain quietEnv [fanoutEntry 0]).toOption.map List.length = some 1 by decide +kernel)
  obtain ⟨socks, rfl⟩ := List.length_eq_one_iff.mp hlen
  have hiff := routed_iff quietEnv [fanoutEntry 0] _ hall (fanoutEntry 0, socks) (by simp)
  exact ⟨socks, hall, hiff.mpr (show (0 : Int) ≤ 0 by decide)⟩

/-- A negative `FanoutSize` is accepted, and the first client brings the daemon down. -/
theorem negative_fanoutSize_panics :
    daemonMain quietEnv [fanoutEntry (-1)] = .ok [[]] ∧
      handle [] idleClient = ⟨[.write [2], .close], .panicked⟩ ∧
      ¬ Routed [] idleClient (handle [] idleClient) :=
  ⟨rfl, rfl, fun h => h.not_panicked handle_nil⟩

end Testimony.Daemon
