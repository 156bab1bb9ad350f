import Testimony.Handoff
import Testimony.Proofs.Handshake

/-!
# `Testimony.Proofs.Handoff`: the descriptor reaches the client

Nothing in the code keeps `recv_t` from reading ahead over the byte that carries the
descriptor. What keeps it is the order of the messages: the server sends that byte only after
it has read the fanout index, the client sends the index only after it has read the greeting to
its end, and until then the greeting is all there is to read.

`Joint` lists the stages the two sides can be in together. Every step keeps to them
(`Joint.server`, `Joint.client`), and `handoff_aligned` reads off what that means for the
client.
-/

set_option autoImplicit false

namespace Testimony.Handoff

open Lib Lib.BigEndian Wire Client Daemon Handshake

/-! ### The greeting -/

/-- What the server sends. -/
def Setup.params (S : Setup) : Params := .sent S.fds.length S.conf

/-- The bytes of the greeting. -/
def Setup.hello (S : Setup) : List UInt8 := 2 :: stream (S.params.tlvs ++ [waiting])

/-- The greeting is the version, the parameters and the message that ends them. -/
theorem hello_eq (S : Setup) : S.hello = 2 :: (stream S.params.tlvs ++ waiting.bytes) := by
  rw [Setup.hello, stream_append]
  simp [stream]

/-- `handle` starts with the whole greeting to write. -/
theorem start_eq (S : Setup) : HandlePc.start S.fds S.conf = .greet S.hello := by
  rw [HandlePc.start, greeting_eq, hello_eq]
  rfl

/-- `testimony_connect` succeeds on a part of the greeting only if it is all of it, and then it
has nothing left. -/
theorem connect_of_hello {S : Setup} {segs : List Seg} {conn : Connection} {sock : Sock}
    (hsegs : Seg.pending segs <+: S.hello)
    (h : testimonyConnect ⟨[], segs⟩ = .ok conn sock) :
    Seg.pending segs = S.hello ∧ conn = .ofParams S.params ∧ Source.pending sock = [] := by
  have hpending : Source.pending (⟨[], segs⟩ : Sock) = Seg.pending segs := rfl
  cases hbytes : Seg.pending segs with
  | nil =>
      -- Not even the version byte is there.
      have hhalts : Halts .blocked testimonyConnect [] :=
        testimonyConnect_eq ▸ (halts_terr _ (halts_recvT (by decide))).bind
      obtain ⟨e, t', heq, -⟩ := hhalts ⟨[], segs⟩ (hpending.trans hbytes)
      rw [heq] at h
      cases h
  | cons b bytes =>
      rw [hbytes, Setup.hello] at hsegs
      obtain ⟨rfl, hcut⟩ := List.cons_prefix_cons.mp hsegs
      rcases stream_cut hcut with rfl | ⟨ts, u, part, hts, rfl, hpart, hlen⟩
      · have hsteps := steps_testimonyConnect (conforms_tlvs S.params) (tlvs_ne_waiting S.params)
          conforms_waiting rfl
        obtain ⟨t', heq, hrest, -⟩ := hsteps ⟨[], segs⟩ [] (by
          rw [hpending, hbytes, ← Setup.hello, hello_eq, List.append_nil])
        rw [note_tlvs, checkConnection_ofParams] at heq
        rw [heq] at h
        split at h
        · cases h
        · obtain ⟨rfl, rfl⟩ := EStateM.Result.ok.inj h
          exact ⟨rfl, rfl, hrest⟩
      · -- The greeting breaks off before its last TLV is complete.
        have hle : ts <+: S.params.tlvs := by
          refine List.prefix_of_prefix_length_le ((List.prefix_append _ _).trans hts)
            (List.prefix_append _ _) ?_
          have := hts.length_le
          simpa using this
        obtain ⟨e, t', heq, -⟩ := halts_testimonyConnect
          (fun t ht => conforms_tlvs S.params t (hle.mem ht))
          (fun t ht => tlvs_ne_waiting S.params t (hle.mem ht)) hpart hlen ⟨[], segs⟩
          (hpending.trans hbytes)
        rw [heq] at h
        cases h

/-! ### The fanout message -/

/-- The head of the fanout message. -/
def typeMsg : List UInt8 := putUint32 (toTL typeFanoutIndex 4)

/-- Its value. -/
def indexMsg (conn : Connection) : List UInt8 := putUint32 conn.fanoutIndex.toUInt32

/-- `testimony_init` sends two messages: the type, and the index that the program has chosen. -/
theorem initMsgs_eq (conn : Connection) : initMsgs conn = [typeMsg, indexMsg conn] := rfl

/-- For numbers that are not negative the signed comparison is the unsigned one. -/
theorem toNat_lt_of_int32 {i s : Int32} (h0 : 0 ≤ i) (h : i < s) :
    i.toUInt32.toNat < s.toUInt32.toNat := by
  have toInt_eq : ∀ x : Int32, x.toInt =
      if 2 * x.toUInt32.toNat < 2 ^ 32 then (x.toUInt32.toNat : Int)
      else x.toUInt32.toNat - (2 ^ 32 : Nat) := fun x => BitVec.toInt_eq_toNat_cond x.toBitVec
  rw [Int32.le_iff_toInt_le, Int32.toInt_zero, toInt_eq] at h0
  rw [Int32.lt_iff_toInt_lt, toInt_eq, toInt_eq] at h
  have hi := i.toUInt32.toNat_lt
  have hs := s.toUInt32.toNat_lt
  split at h0 <;> split at h <;> omega

/-- The client asks for a socket that exists. -/
structure Asked (S : Setup) (conn : Connection) : Prop where
  eq : conn = { Connection.ofParams S.params with fanoutIndex := conn.fanoutIndex }
  nonneg : 0 ≤ conn.fanoutIndex
  lt : conn.fanoutIndex < conn.fanoutSize

/-- The descriptor the client is going to get. -/
def Setup.fd (S : Setup) (conn : Connection) : Option Nat := S.fds[conn.fanoutIndex.toUInt32.toNat]?

/-- A choice that the client's check lets pass has a descriptor. -/
theorem Asked.exists_fd {S : Setup} {conn : Connection} (h : Asked S conn) :
    ∃ fd, S.fd conn = some fd := by
  have hlt := toNat_lt_of_int32 h.nonneg h.lt
  have hsize : conn.fanoutSize.toUInt32.toNat = S.fds.length % 2 ^ 32 := by
    rw [h.eq]
    exact UInt32.toNat_ofNat'
  have hle : S.fds.length % 2 ^ 32 ≤ S.fds.length := Nat.mod_le _ _
  have hidx : conn.fanoutIndex.toUInt32.toNat < S.fds.length := by omega
  exact ⟨S.fds[conn.fanoutIndex.toUInt32.toNat], List.getElem?_eq_getElem hidx⟩

/-- The server understands the fanout message. -/
theorem afterFanoutMsg_eq {S : Setup} {conn : Connection} {fd : Nat} (h : S.fd conn = some fd) :
    afterFanoutMsg S.fds (typeMsg ++ indexMsg conn) = .writeFd fd := by
  have hA : (typeMsg ++ indexMsg conn).take 4 = typeMsg := List.take_left' rfl
  have hB : (typeMsg ++ indexMsg conn).drop 4 = indexMsg conn := List.drop_left' rfl
  unfold afterFanoutMsg
  rw [hA, hB, typeMsg, indexMsg, uint32_putUint32, uint32_putUint32]
  simp only [ne_eq, not_true_eq_false, if_false]
  rw [show S.fds[conn.fanoutIndex.toUInt32.toNat]? = some fd from h]

/-! ### The stages -/

/-- The server has sent `sent` of the greeting and nothing else. -/
def Greeted (S : Setup) (sent : List UInt8) : HandlePc → Prop
  | .greet rest => rest ≠ [] ∧ sent ++ rest = S.hello
  | .readFanout fanoutMsg => fanoutMsg = [] ∧ sent = S.hello
  | .closed => sent <+: S.hello
  | _ => False

/-- Wherever `handle` stands, it has sent the beginning of the greeting. -/
theorem Greeted.sent_le {S : Setup} {sent : List UInt8} {handle : HandlePc}
    (h : Greeted S sent handle) : sent <+: S.hello := by
  cases handle with
  | greet rest => exact ⟨rest, h.2⟩
  | readFanout msg => exact h.2 ▸ List.prefix_refl _
  | closed => exact h
  | writeFd fd | handOff | served => exact h.elim

/-- A client that has read the greeting and has sent exactly `sent`. `send` may take less than
a whole message. -/
inductive Asks (S : Setup) : ClientPc → List UInt8 → Prop
  | connected {sock : Sock} (hsock : Source.pending sock = []) :
      Asks S (.connected (.ofParams S.params) sock) []
  | first {conn : Connection} {sock : Sock} (hask : Asked S conn)
      (hsock : Source.pending sock = []) : Asks S (.sending conn sock (initMsgs conn)) []
  | second {conn : Connection} {sock : Sock} {a : Nat} (hask : Asked S conn)
      (hsock : Source.pending sock = []) :
      Asks S (.sending conn sock [indexMsg conn]) (typeMsg.take a)
  | both {conn : Connection} {sock : Sock} {a b : Nat} (hask : Asked S conn)
      (hsock : Source.pending sock = []) :
      Asks S (.recvFd conn sock) (typeMsg.take a ++ (indexMsg conn).take b)

/-- The server has passed the descriptor. -/
def Passed : HandlePc → Prop
  | .handOff | .served | .closed => True
  | _ => False

/-- The stages of a connection. Between them `conn.run` sends the indexes of blocks, and
nothing before the descriptor is on its way. -/
inductive Joint (S : Setup) (s : State) : Prop
  | greeting {segs : List Seg} {r w : List UInt8} (hclient : s.client = .connecting segs)
      (hr : Seg.Tracks segs r) (hw : s.toClient = plain w) (hhandle : Greeted S (r ++ w) s.handle)
      (hserver : s.toServer = []) (hout : s.out = [] ∧ s.indexes = [])
  | asking {sent : List UInt8} (hclient : Asks S s.client sent) (hw : s.toClient = [])
      (hhandle : s.handle = .closed ∨
        ∃ fanoutMsg, s.handle = .readFanout fanoutMsg ∧ fanoutMsg ++ s.toServer = sent)
      (hout : s.out = [] ∧ s.indexes = [])
  | granted {conn : Connection} {sock : Sock} {fd : Nat} (hclient : s.client = .recvFd conn sock)
      (hask : Asked S conn) (hsock : Source.pending sock = []) (hfd : S.fd conn = some fd)
      (hhandle : s.handle = .writeFd fd) (hw : s.toClient = []) (hout : s.out = [] ∧ s.indexes = [])
  | passing {conn : Connection} {sock : Sock} {fd : Nat} {w : List UInt8}
      (hclient : s.client = .recvFd conn sock) (hsock : Source.pending sock = [])
      (hfd : S.fd conn = some fd) (hw : s.toClient = (0, some fd) :: plain w)
      (hhandle : Passed s.handle) (hout : w ++ s.out = encodeIndexes s.indexes)
  | mapping {conn : Connection} {sock : Sock} {fd : Nat} {w : List UInt8}
      (hclient : s.client = .map conn sock fd) (hsock : Source.pending sock = [])
      (hfd : S.fd conn = some fd) (hw : s.toClient = plain w) (hhandle : Passed s.handle)
      (hout : w ++ s.out = encodeIndexes s.indexes)
  | ready {t : T} {fd : Nat} {r w : List UInt8} (hclient : s.client = .ready t fd)
      (hfd : S.fd t.conn = some fd) (hbuf : t.sock.buf = []) (hr : Seg.Tracks t.sock.segs r)
      (hw : s.toClient = plain w) (hhandle : Passed s.handle)
      (hout : r ++ w ++ s.out = encodeIndexes s.indexes)
  | gone (hclient : s.client = .failed)

/-- Bytes without descriptors are put one behind the other. -/
theorem plain_append (l₁ l₂ : List UInt8) : plain (l₁ ++ l₂) = plain l₁ ++ plain l₂ :=
  List.map_append

/-- Less than the whole fanout message is less than eight bytes. -/
theorem take_append_take {m₁ m₂ : List UInt8} (h₁ : m₁.length = 4) (h₂ : m₂.length = 4) {a b : Nat}
    (h : 8 ≤ (m₁.take a ++ m₂.take b).length) : m₁.take a ++ m₂.take b = m₁ ++ m₂ := by
  rw [List.length_append, List.length_take, List.length_take] at h
  rw [List.take_of_length_le (by omega), List.take_of_length_le (by omega)]

/-! ### Steps of the server -/

/-- A write of `handle` moves bytes from its greeting to the stream. -/
theorem Joint.write {S : Setup} {s : State} (h : Joint S s) {rest : List UInt8} {n : Nat}
    (hpc : s.handle = .greet rest) :
    Joint S { s with
      handle := if rest.drop n = [] then .readFanout [] else .greet (rest.drop n)
      toClient := s.toClient ++ plain (rest.take n) } := by
  cases h with
  | @greeting segs r w hclient hr hw hhandle hserver hout =>
      rw [hpc] at hhandle
      have hsent : r ++ (w ++ rest.take n) ++ rest.drop n = S.hello := by
        rw [List.append_assoc, List.append_assoc, List.take_append_drop, ← List.append_assoc]
        exact hhandle.2
      refine .greeting hclient hr (w := w ++ rest.take n) ?_ ?_ hserver hout
      · rw [plain_append, ← hw]
      · show Greeted S _ (if rest.drop n = [] then .readFanout [] else .greet (rest.drop n))
        split
        · rename_i hnil
          rw [hnil, List.append_nil] at hsent
          exact ⟨rfl, hsent⟩
        · exact ⟨‹_›, hsent⟩
  | asking hclient hw hhandle hout =>
      rcases hhandle with hclosed | ⟨got, hread, -⟩ <;> simp_all
  | granted hclient hask hsock hfd hhandle hw hout => simp_all
  -- The descriptor is not passed yet.
  | passing _ _ _ _ hhandle _ | mapping _ _ _ _ hhandle _ | ready _ _ _ _ _ hhandle _ =>
      simp [hpc, Passed] at hhandle
  | gone hclient => exact .gone hclient

/-- A read of `handle` moves bytes from the stream to its message, and with the eighth it knows
which descriptor to send. -/
theorem Joint.read {S : Setup} {s : State} (h : Joint S s) {fanoutMsg : List UInt8} {n : Nat}
    (hpc : s.handle = .readFanout fanoutMsg) (hpos : 0 < n) (hn : n ≤ s.toServer.length)
    (hle : fanoutMsg.length + n ≤ 8) :
    Joint S { s with
      handle := if (fanoutMsg ++ s.toServer.take n).length = 8
        then afterFanoutMsg S.fds (fanoutMsg ++ s.toServer.take n)
        else .readFanout (fanoutMsg ++ s.toServer.take n)
      toServer := s.toServer.drop n } := by
  cases h with
  | greeting hclient hr hw hhandle hserver hout =>
      rw [hserver, List.length_nil] at hn
      omega
  | @asking sent hclient hw hhandle hout =>
      obtain ⟨got, hread, hsent⟩ := hhandle.resolve_left (by rw [hpc]; nofun)
      obtain rfl : got = fanoutMsg := by
        rw [hpc] at hread
        exact (HandlePc.readFanout.inj hread).symm
      have hsent' : got ++ s.toServer.take n ++ s.toServer.drop n = sent := by
        rw [List.append_assoc, List.take_append_drop, hsent]
      split
      · -- Eight bytes are the whole message, so both `send`s took all of theirs.
        rename_i hlen
        have hsentlen : 8 ≤ sent.length := by
          rw [← hsent', List.length_append, hlen]
          omega
        generalize s.client = client at hclient
        cases hclient with
        | connected hsock => simp at hsentlen
        | first hask hsock => simp at hsentlen
        | second hask hsock =>
            have : typeMsg.length = 4 := rfl
            rw [List.length_take] at hsentlen
            omega
        | @both conn sock a b hask hsock =>
            obtain ⟨fd, hfd⟩ := hask.exists_fd
            rw [take_append_take (show typeMsg.length = 4 from rfl)
              (show (indexMsg conn).length = 4 from rfl) hsentlen] at hsent'
            have hmsg : got ++ s.toServer.take n = typeMsg ++ indexMsg conn :=
              List.IsPrefix.eq_of_length ⟨_, hsent'⟩ hlen
            exact .granted rfl hask hsock hfd (by rw [hmsg]; exact afterFanoutMsg_eq hfd) hw hout
      · exact .asking hclient hw (.inr ⟨_, rfl, hsent'⟩) hout
  | granted hclient hask hsock hfd hhandle hw hout => simp_all
  | passing _ _ _ _ hhandle _ | mapping _ _ _ _ hhandle _ | ready _ _ _ _ _ hhandle _ =>
      simp [hpc, Passed] at hhandle
  | gone hclient => exact .gone hclient

/-- The descriptor goes into the stream behind the greeting, with one byte. -/
theorem Joint.writeFd {S : Setup} {s : State} (h : Joint S s) {fd : Nat}
    (hpc : s.handle = .writeFd fd) :
    Joint S { s with handle := .handOff, toClient := s.toClient ++ [(0, some fd)] } := by
  cases h with
  | greeting hclient hr hw hhandle hserver hout => simp [hpc, Greeted] at hhandle
  | asking hclient hw hhandle hout =>
      rcases hhandle with hclosed | ⟨got, hread, -⟩ <;> simp_all
  | granted hclient hask hsock hfd hhandle hw hout =>
      obtain rfl : _ = fd := HandlePc.writeFd.inj (hhandle.symm.trans hpc)
      refine .passing (w := []) hclient hsock hfd ?_ trivial ?_
      · rw [hw]
        rfl
      · rw [hout.1, hout.2]
        rfl
  | passing _ _ _ _ hhandle _ | mapping _ _ _ _ hhandle _ | ready _ _ _ _ _ hhandle _ =>
      simp [hpc, Passed] at hhandle
  | gone hclient => exact .gone hclient

/-- With the descriptor passed, the server goes on as it likes, as long as what it puts on the
stream is the encoding of the indexes. -/
theorem Joint.goOn {S : Setup} {s : State} (h : Joint S s)
    (hpc : s.handle = .handOff ∨ s.handle = .served) (handle : HandlePc) (hhandle : Passed handle)
    (written out : List UInt8) (is : List UInt32)
    (hout : ∀ x, x ++ s.out = encodeIndexes s.indexes →
      x ++ written ++ out = encodeIndexes (s.indexes ++ is)) :
    Joint S { s with
      handle := handle
      out := out
      indexes := s.indexes ++ is
      toClient := s.toClient ++ plain written } := by
  have hgreet : ∀ x, ¬ Greeted S x s.handle := by
    intro x
    rcases hpc with hpc | hpc <;> rw [hpc] <;> exact id
  cases h with
  | greeting hclient hr hw hhandle' hserver hout' => exact absurd hhandle' (hgreet _)
  | asking hclient hw hhandle' hout' =>
      rcases hhandle' with hclosed | ⟨got, hread, -⟩ <;> rcases hpc with hpc | hpc <;> simp_all
  | granted hclient hask hsock hfd hhandle' hw hout' => rcases hpc with hpc | hpc <;> simp_all
  | @passing conn sock fd w hclient hsock hfd hw hhandle' hout' =>
      refine .passing (w := w ++ written) hclient hsock hfd ?_ hhandle (hout w hout')
      rw [plain_append, hw]
      rfl
  | @mapping conn sock fd w hclient hsock hfd hw hhandle' hout' =>
      refine .mapping (w := w ++ written) hclient hsock hfd ?_ hhandle (hout w hout')
      rw [plain_append, ← hw]
  | @ready t fd r w hclient hfd hbuf hr hw hhandle' hout' =>
      refine .ready (w := w ++ written) hclient hfd hbuf hr ?_ hhandle ?_
      · rw [plain_append, ← hw]
      · rw [← List.append_assoc]
        exact hout (r ++ w) hout'
  | gone hclient => exact .gone hclient

/-- When the server gives up, the client is at the same stage as before. -/
theorem Joint.fail {S : Setup} {s : State} (h : Joint S s) :
    Joint S { s with handle := .closed } := by
  cases h with
  | greeting hclient hr hw hhandle hserver hout =>
      exact .greeting hclient hr hw hhandle.sent_le hserver hout
  | asking hclient hw hhandle hout => exact .asking hclient hw (.inl rfl) hout
  | granted hclient hask hsock hfd hhandle hw hout =>
      have hasks : Asks S s.client _ := hclient ▸ Asks.both (a := 0) (b := 0) hask hsock
      exact .asking hasks hw (.inl rfl) hout
  | passing hclient hsock hfd hw hhandle hout => exact .passing hclient hsock hfd hw trivial hout
  | mapping hclient hsock hfd hw hhandle hout => exact .mapping hclient hsock hfd hw trivial hout
  | ready hclient hfd hbuf hr hw hhandle hout => exact .ready hclient hfd hbuf hr hw trivial hout
  | gone hclient => exact .gone hclient

/-- Every step of the server keeps to the stages. -/
theorem Joint.server {S : Setup} {s s' : State} {l : ServerLabel} (h : Joint S s)
    (hstep : serverStep S s l = some s') : Joint S s' ∧ s'.dropped = s.dropped := by
  cases l with
  | write n =>
      simp only [serverStep] at hstep
      split at hstep
      · rename_i rest hpc
        split at hstep <;> cases hstep
        exact ⟨h.write hpc, rfl⟩
      · cases hstep
  | read n =>
      simp only [serverStep] at hstep
      split at hstep
      · rename_i msg hpc
        split at hstep <;> cases hstep
        rename_i hn
        exact ⟨h.read hpc hn.1 hn.2.1 hn.2.2, rfl⟩
      · cases hstep
  | writeFd =>
      simp only [serverStep] at hstep
      split at hstep
      · rename_i fd hpc
        cases hstep
        exact ⟨h.writeFd hpc, rfl⟩
      · cases hstep
  | handOff =>
      simp only [serverStep] at hstep
      split at hstep
      · rename_i hpc
        cases hstep
        have hnext := h.goOn (.inl hpc) .served trivial [] s.out [] (by simp)
        simp only [plain, List.map_nil, List.append_nil] at hnext
        exact ⟨hnext, rfl⟩
      · cases hstep
  | index i =>
      simp only [serverStep] at hstep
      split at hstep
      · rename_i hpc
        cases hstep
        have hnext := h.goOn (.inr hpc) s.handle (by rw [hpc]; trivial) []
          (s.out ++ putUint32 i) [i] (by
            intro x hx
            rw [encodeIndexes_append, ← hx]
            simp [encodeIndexes])
        simp only [plain, List.map_nil, List.append_nil] at hnext
        exact ⟨hnext, rfl⟩
      · cases hstep
  | writeIndexes n =>
      simp only [serverStep] at hstep
      split at hstep
      · rename_i hpc
        split at hstep <;> cases hstep
        have hnext := h.goOn (.inr hpc) s.handle (by rw [hpc]; trivial)
          (s.out.take n) (s.out.drop n) [] (by
            intro x hx
            rw [List.append_assoc, List.take_append_drop, hx, List.append_nil])
        rw [List.append_nil] at hnext
        exact ⟨hnext, rfl⟩
      · cases hstep
  | fail =>
      cases hstep
      exact ⟨h.fail, rfl⟩

/-! ### Steps of the client -/

/-- `recv` from a stream without descriptors. -/
theorem recv_plain {s s' : State} {n : Nat} {client : List UInt8 → ClientPc} {w : List UInt8}
    (hw : s.toClient = plain w) (h : s.recv n client = some s') :
    s' = { s with client := client (w.take n), toClient := plain (w.drop n) } := by
  have hbytes : (s.toClient.take n).map Prod.fst = w.take n := by
    rw [hw, plain, ← List.map_take, List.map_map]
    exact List.map_id _
  have hrest : s.toClient.drop n = plain (w.drop n) := by
    rw [hw]
    exact List.map_drop.symm
  have hnone : (s.toClient.take n).filterMap Prod.snd = [] := by
    rw [hw, plain, ← List.map_take, List.filterMap_map]
    exact List.filterMap_eq_nil_iff.mpr fun _ _ => rfl
  unfold State.recv at h
  split at h
  · rw [← Option.some.inj h, hbytes, hrest, hnone, List.append_nil]
  · cases h

/-- While `testimony_connect` runs, the greeting comes in. -/
theorem Joint.of_connecting {S : Setup} {s : State} {segs : List Seg} (h : Joint S s)
    (hpc : s.client = .connecting segs) :
    ∃ r w, Seg.Tracks segs r ∧ s.toClient = plain w ∧ Greeted S (r ++ w) s.handle ∧
      s.toServer = [] ∧ s.out = [] ∧ s.indexes = [] := by
  cases h with
  | greeting hclient hr hw hhandle hserver hout =>
      obtain rfl := ClientPc.connecting.inj (hclient.symm.trans hpc)
      exact ⟨_, _, hr, hw, hhandle, hserver, hout⟩
  | asking hclient hw hhandle hout => rw [hpc] at hclient; cases hclient
  | granted hclient | passing hclient | mapping hclient | ready hclient | gone hclient =>
      simp [hclient] at hpc

/-- Between the greeting and `recvmsg`, the client has sent part of the fanout message. -/
theorem Joint.of_asking {S : Setup} {s : State} (h : Joint S s)
    (hpc : (∃ conn sock, s.client = .connected conn sock) ∨
      ∃ conn sock msgs, s.client = .sending conn sock msgs) :
    ∃ sent, Asks S s.client sent ∧ s.toClient = [] ∧
      (s.handle = .closed ∨
        ∃ fanoutMsg, s.handle = .readFanout fanoutMsg ∧ fanoutMsg ++ s.toServer = sent) ∧
      s.out = [] ∧ s.indexes = [] := by
  cases h with
  | asking hclient hw hhandle hout => exact ⟨_, hclient, hw, hhandle, hout⟩
  | greeting hclient | granted hclient | passing hclient | mapping hclient | ready hclient
  | gone hclient => simp [hclient] at hpc

/-- With the descriptor received, the stream holds indexes only. -/
theorem Joint.of_map {S : Setup} {s : State} {conn : Connection} {sock : Sock} {fd : Nat}
    (h : Joint S s) (hpc : s.client = .map conn sock fd) :
    Source.pending sock = [] ∧ S.fd conn = some fd ∧ Passed s.handle ∧
      ∃ w, s.toClient = plain w ∧ w ++ s.out = encodeIndexes s.indexes := by
  cases h with
  | mapping hclient hsock hfd hw hhandle hout =>
      obtain ⟨rfl, rfl, rfl⟩ := ClientPc.map.inj (hclient.symm.trans hpc)
      exact ⟨hsock, hfd, hhandle, _, hw, hout⟩
  | asking hclient => rw [hpc] at hclient; cases hclient
  | greeting hclient | granted hclient | passing hclient | ready hclient | gone hclient =>
      simp [hclient] at hpc

/-- And the client that is ready has read the first of them. -/
theorem Joint.of_ready {S : Setup} {s : State} {t : T} {fd : Nat} (h : Joint S s)
    (hpc : s.client = .ready t fd) :
    S.fd t.conn = some fd ∧ t.sock.buf = [] ∧ Passed s.handle ∧ ∃ r w, Seg.Tracks t.sock.segs r ∧
      s.toClient = plain w ∧ r ++ w ++ s.out = encodeIndexes s.indexes := by
  cases h with
  | ready hclient hfd hbuf hr hw hhandle hout =>
      obtain ⟨rfl, rfl⟩ := ClientPc.ready.inj (hclient.symm.trans hpc)
      exact ⟨hfd, hbuf, hhandle, _, _, hr, hw, hout⟩
  | asking hclient => rw [hpc] at hclient; cases hclient
  | greeting hclient | granted hclient | passing hclient | mapping hclient | gone hclient =>
      simp [hclient] at hpc

/-- `testimony_connect` returns. -/
theorem Joint.connectReturns {S : Setup} {s : State} {segs : List Seg} {conn : Connection}
    {sock : Sock} (h : Joint S s) (hpc : s.client = .connecting segs)
    (hconnect : testimonyConnect ⟨[], segs⟩ = .ok conn sock) :
    Joint S { s with client := .connected conn sock } := by
  obtain ⟨r, w, hr, hw, hhandle, hserver, hout⟩ := h.of_connecting hpc
  have hsent := hhandle.sent_le
  have hrw : r <+: r ++ w := List.prefix_append _ _
  obtain ⟨hall, rfl, hsock⟩ := connect_of_hello (hr.pending_le.trans (hrw.trans hsent)) hconnect
  -- The client has read the whole greeting, so nothing is on its way.
  have hr' : r = S.hello :=
    (hrw.trans hsent).eq_of_length_le (hall ▸ hr.pending_le.length_le)
  obtain rfl : w = [] := by
    have := hsent.length_le
    rw [hr', List.length_append] at this
    exact List.eq_nil_of_length_eq_zero (by omega)
  rw [List.append_nil] at hhandle
  refine .asking (.connected hsock) hw ?_ hout
  revert hhandle
  cases hh : s.handle with
  | greet rest =>
      rintro ⟨hrest, hsum⟩
      rw [hr'] at hsum
      exact absurd (List.append_right_eq_self.mp hsum) hrest
  | readFanout msg => exact fun h => .inr ⟨msg, rfl, by rw [h.1, hserver]; rfl⟩
  | closed => exact fun _ => .inl rfl
  | writeFd fd | handOff | served => exact False.elim

/-- The program chooses a fanout index. -/
theorem Joint.init {S : Setup} {s : State} {conn : Connection} {sock : Sock} {i : Int32}
    (h : Joint S s) (hpc : s.client = .connected conn sock) (hi : 0 ≤ i ∧ i < conn.fanoutSize) :
    Joint S { s with
      client := .sending { conn with fanoutIndex := i } sock
        (initMsgs { conn with fanoutIndex := i }) } := by
  obtain ⟨sent, hclient, hw, hhandle, hout⟩ := h.of_asking (.inl ⟨conn, sock, hpc⟩)
  rw [hpc] at hclient
  cases hclient with
  | connected hsock => exact .asking (.first ⟨rfl, hi.1, hi.2⟩ hsock) hw hhandle hout

/-- The client sends the next message, or a part of it. -/
theorem Joint.send {S : Setup} {s : State} {conn : Connection} {sock : Sock} {n : Nat}
    {msg : List UInt8} {msgs : List (List UInt8)} (h : Joint S s)
    (hpc : s.client = .sending conn sock (msg :: msgs)) :
    Joint S { s with
      client := if msgs = [] then .recvFd conn sock else .sending conn sock msgs
      toServer := s.toServer ++ msg.take n } := by
  obtain ⟨sent, hclient, hw, hhandle, hout⟩ := h.of_asking (.inr ⟨conn, sock, _, hpc⟩)
  -- Whatever the server has read, it and what is on its way are what was sent.
  have hhandle' : s.handle = .closed ∨ ∃ fanoutMsg, s.handle = .readFanout fanoutMsg ∧
      fanoutMsg ++ (s.toServer ++ msg.take n) = sent ++ msg.take n := by
    refine hhandle.imp id ?_
    rintro ⟨fanoutMsg, hread, hsum⟩
    exact ⟨fanoutMsg, hread, by rw [← List.append_assoc, hsum]⟩
  rw [hpc] at hclient
  generalize hmsgs : msg :: msgs = all at hclient
  cases hclient with
  | first hask hsock =>
      rw [initMsgs_eq] at hmsgs
      obtain ⟨rfl, rfl⟩ := List.cons.inj hmsgs
      refine .asking ?_ hw hhandle' hout
      rw [if_neg (by simp), List.nil_append]
      exact .second hask hsock
  | second hask hsock =>
      obtain ⟨rfl, rfl⟩ := List.cons.inj hmsgs
      refine .asking ?_ hw hhandle' hout
      rw [if_pos rfl]
      exact .both hask hsock

/-- `recvmsg` takes the dummy byte, and with it the descriptor. -/
theorem Joint.recvmsg {S : Setup} {s : State} {conn : Connection} {sock : Sock} {item : Item}
    {rest : List Item} (h : Joint S s) (hpc : s.client = .recvFd conn sock)
    (hitem : s.toClient = item :: rest) :
    ∃ fd, item.2 = some fd ∧
      Joint S { s with client := .map conn sock fd, toClient := rest } := by
  cases h with
  | @passing conn' sock' fd w hclient hsock hfd hw hhandle hout =>
      obtain ⟨rfl, rfl⟩ := ClientPc.recvFd.inj (hclient.symm.trans hpc)
      obtain ⟨rfl, rfl⟩ := List.cons.inj (hitem.symm.trans hw)
      exact ⟨fd, rfl, .mapping rfl hsock hfd rfl hhandle hout⟩
  -- Before the descriptor there is nothing to take.
  | asking hclient hw => simp [hw] at hitem
  | granted hclient hask hsock hfd hhandle hw => simp [hw] at hitem
  | greeting hclient | mapping hclient | ready hclient | gone hclient => simp [hclient] at hpc

/-- The ring is mapped. -/
theorem Joint.mmap {S : Setup} {s : State} {conn : Connection} {sock : Sock} {fd : Nat}
    (h : Joint S s) (hpc : s.client = .map conn sock fd) (ring : Nat) :
    Joint S { s with client := .ready (.init S.sockFd conn sock ring) fd } := by
  obtain ⟨hsock, hfd, hhandle, w, hw, hout⟩ := h.of_map hpc
  obtain ⟨hbuf, hsegs⟩ := List.append_eq_nil_iff.mp hsock
  exact .ready (r := []) rfl hfd hbuf ⟨fun _ => hsegs, hsegs ▸ List.prefix_refl _⟩ hw hhandle hout

/-- `recv` after `testimony_init`. -/
theorem Joint.recvReady {S : Setup} {s s' : State} {t : T} {fd n : Nat} (h : Joint S s)
    (hpc : s.client = .ready t fd)
    (hrecv : s.recv n (fun bytes => .ready { t with
      sock := { t.sock with segs := t.sock.segs ++ Seg.unread bytes [] } } fd) = some s') :
    Joint S s' ∧ s'.dropped = s.dropped := by
  obtain ⟨hfd, hbuf, hhandle, r, w, hr, hw, hout⟩ := h.of_ready hpc
  obtain rfl := recv_plain hw hrecv
  refine ⟨.ready (w := w.drop n) rfl hfd hbuf (hr.data (w.take n)) rfl hhandle ?_, rfl⟩
  rw [List.append_assoc r, List.take_append_drop]
  exact hout

/-- Every step of the client keeps to the stages, and drops no descriptor. -/
theorem Joint.clientStep {S : Setup} {s s' : State} {l : ClientLabel} (h : Joint S s)
    (hstep : clientStep S s l = some s') : Joint S s' ∧ s'.dropped = s.dropped := by
  cases l with
  | recv n =>
      simp only [Handoff.clientStep] at hstep
      split at hstep
      · rename_i segs hpc
        split at hstep
        · obtain ⟨r, w, hr, hw, hhandle, hserver, hout⟩ := h.of_connecting hpc
          obtain rfl := recv_plain hw hstep
          refine ⟨.greeting (w := w.drop n) rfl (hr.data (w.take n)) rfl ?_ hserver hout, rfl⟩
          rw [List.append_assoc, List.take_append_drop]
          exact hhandle
        · cases hstep
      · rename_i t fd hpc
        exact h.recvReady hpc hstep
      · cases hstep
  | recvStops seg =>
      simp only [Handoff.clientStep] at hstep
      split at hstep
      · rename_i segs hpc
        split at hstep <;> cases hstep
        rename_i hstops
        obtain ⟨r, w, hr, hw, hhandle, hserver, hout⟩ := h.of_connecting hpc
        have hseg : Seg.pending [seg] = [] := by
          cases seg with
          | data b bs => simp [State.stops] at hstops
          | eintr | eof | error e => rfl
        exact ⟨.greeting rfl (hr.stop hseg) hw hhandle hserver hout, rfl⟩
      · cases hstep
  | connectReturns =>
      simp only [Handoff.clientStep] at hstep
      split at hstep
      · rename_i segs hpc
        split at hstep
        · rename_i conn sock hconnect
          cases hstep
          exact ⟨h.connectReturns hpc hconnect, rfl⟩
        · cases hstep
          exact ⟨.gone rfl, rfl⟩
        · cases hstep
      · cases hstep
  | init i =>
      simp only [Handoff.clientStep] at hstep
      split at hstep
      · rename_i conn sock hpc
        split at hstep <;> cases hstep
        exact ⟨h.init hpc ‹_›, rfl⟩
      · cases hstep
  | send n =>
      simp only [Handoff.clientStep] at hstep
      split at hstep
      · rename_i conn sock msg msgs hpc
        split at hstep <;> cases hstep
        exact ⟨h.send hpc, rfl⟩
      · cases hstep
  | recvmsg =>
      simp only [Handoff.clientStep] at hstep
      split at hstep
      · rename_i conn sock hpc
        split at hstep
        · rename_i b fd rest hitem
          cases hstep
          obtain ⟨fd', hfd, hnext⟩ := h.recvmsg hpc hitem
          obtain rfl := Option.some.inj hfd
          exact ⟨hnext, rfl⟩
        · rename_i b rest hitem
          obtain ⟨fd', hfd, -⟩ := h.recvmsg hpc hitem
          cases hfd
        · cases hstep
      · cases hstep
  | mmap ring =>
      simp only [Handoff.clientStep] at hstep
      split at hstep
      · rename_i conn sock fd hpc
        cases hstep
        exact ⟨h.mmap hpc ring, rfl⟩
      · cases hstep
  | fail =>
      simp only [Handoff.clientStep] at hstep
      split at hstep <;> cases hstep
      all_goals exact ⟨.gone rfl, rfl⟩

/-- The stages hold in every run. -/
theorem joint_of_reachable {S : Setup} {s : State} (h : (system S).Reachable s) :
    Joint S s ∧ s.dropped = [] := by
  refine h.invariant (P := fun s => Joint S s ∧ s.dropped = []) ?_ ?_
  · refine ⟨.greeting (r := []) (w := []) rfl ⟨fun _ => rfl, List.prefix_refl _⟩ rfl ?_ rfl
      ⟨rfl, rfl⟩, rfl⟩
    show Greeted S [] (HandlePc.start S.fds S.conf)
    rw [start_eq]
    exact ⟨by simp [Setup.hello], rfl⟩
  · rintro s l s' - ⟨hjoint, hdropped⟩ hstep
    cases l with
    | server l =>
        obtain ⟨hnext, heq⟩ := hjoint.server hstep
        exact ⟨hnext, heq.trans hdropped⟩
    | client l =>
        obtain ⟨hnext, heq⟩ := hjoint.clientStep hstep
        exact ⟨hnext, heq.trans hdropped⟩

/-! ### The hand-off -/

/-- In every run of the two sides: when `testimony_connect` returns 0 its buffer is empty. No
`recv` takes the byte that carries the descriptor, and `recvmsg` takes no other. The descriptor
it returns is that of the socket the client asked for, and what `recv_t` reads afterwards are
the block indexes that `conn.run` writes, from their first byte on. -/
theorem handoff_aligned (S : Setup) (s : State) (h : (system S).Reachable s) :
    (∀ conn sock, s.client = .connected conn sock → sock.buf = []) ∧
    s.dropped = [] ∧ s.client ≠ .noDescriptor ∧
    (∀ conn sock fd, s.client = .map conn sock fd →
      S.fds[conn.fanoutIndex.toUInt32.toNat]? = some fd) ∧
    (∀ t fd, s.client = .ready t fd →
      S.fds[t.conn.fanoutIndex.toUInt32.toNat]? = some fd ∧ t.sock.buf = [] ∧
      ∀ n ≤ (Source.pending t.sock).length, ∃ sock',
        recvT n t.sock = .ok ((encodeIndexes s.indexes).take n) sock') := by
  obtain ⟨hjoint, hdropped⟩ := joint_of_reachable h
  refine ⟨fun conn sock hpc => ?_, hdropped, fun hpc => ?_, fun conn sock fd hpc => ?_,
    fun t fd hpc => ?_⟩
  · obtain ⟨sent, hclient, -⟩ := hjoint.of_asking (.inl ⟨conn, sock, hpc⟩)
    rw [hpc] at hclient
    cases hclient with
    | connected hsock => exact (List.append_eq_nil_iff.mp hsock).1
  · cases hjoint with
    | asking hclient => rw [hpc] at hclient; cases hclient
    | greeting hclient | granted hclient | passing hclient | mapping hclient | ready hclient
    | gone hclient => rw [hpc] at hclient; cases hclient
  · exact (hjoint.of_map hpc).2.1
  · obtain ⟨hfd, hbuf, -, r, w, hr, -, hout⟩ := hjoint.of_ready hpc
    refine ⟨hfd, hbuf, fun n hn => ?_⟩
    -- What is to be read is the beginning of what `conn.run` has written.
    have hpending : Source.pending t.sock <+: encodeIndexes s.indexes := by
      rw [pending_sock, hbuf, ← hout, List.append_assoc]
      exact hr.pending_le.trans (List.prefix_append _ _)
    obtain ⟨sock', hrecv, -⟩ := reads_recvT ((Source.pending t.sock).take n) t.sock _
      (List.take_append_drop n _).symm
    rw [List.length_take_of_le hn] at hrecv
    obtain ⟨rest, hrest⟩ := hpending
    exact ⟨sock', by rw [hrecv, ← hrest, List.take_append_of_le_length hn]⟩

/-- Two sockets with the descriptors 7 and 9. The client asks for the second one, and the two
sides cut their messages up. -/
theorem handoff_aligned_second : ∃ s t, (system ⟨[7, 9], ⟨4096, 16⟩, 3⟩).Reachable s ∧
    s.client = .ready t 9 ∧ t.conn.fanoutIndex = 1 ∧ s.dropped = [] ∧
    ∃ sock', recvT 4 t.sock = .ok (putUint32 5) sock' := by
  let S : Setup := ⟨[7, 9], ⟨4096, 16⟩, 3⟩
  let labels : List Label :=
    [.server (.write 20), .client (.recv 3), .client (.recvStops .eintr), .client (.recv 17),
      .server (.write 9), .client (.recv 9), .client .connectReturns, .client (.init 1),
      .client (.send 4), .server (.read 3), .client (.send 4), .server (.read 5),
      .server .writeFd, .server .handOff, .server (.index 5), .server (.writeIndexes 4),
      .client .recvmsg, .client (.mmap 4096), .client (.recv 2), .client (.recv 2)]
  have hrun : ((system S).exec (.initial S) labels).map (fun s =>
      match s.client with
      | .ready t fd => some (fd, t.conn.fanoutIndex, Source.pending t.sock, s.indexes)
      | _ => none) = some (some (9, 1, [0, 0, 0, 5], [5])) := by decide +kernel
  obtain ⟨s, hexec, hs⟩ := Option.map_eq_some_iff.mp hrun
  have hreach : (system S).Reachable s := System.reachable_of_exec hexec
  obtain ⟨-, hdropped, -, -, hready⟩ := handoff_aligned S s hreach
  cases hclient : s.client with
  | ready t fd =>
      rw [hclient] at hs
      simp only [Option.some.injEq, Prod.mk.injEq] at hs
      obtain ⟨rfl, hidx, hpending, hindexes⟩ := hs
      obtain ⟨-, -, hrecv⟩ := hready t 9 hclient
      refine ⟨s, t, hreach, hclient, hidx, hdropped, ?_⟩
      obtain ⟨sock', heq⟩ := hrecv 4 (by rw [hpending]; decide)
      rw [hindexes] at heq
      exact ⟨sock', heq⟩
  | _ => rw [hclient] at hs; cases hs

end Testimony.Handoff
