import Testimony.Client.Connect
import Testimony.Handshake
import Testimony.Proofs.Client.Recv

/-!
# `Testimony.Proofs.Client.Connect`: what `testimony_connect` reads

`reads_testimonyConnect`: a complete greeting is read to its last byte and no further.
`halts_testimonyConnect`: a greeting that breaks off anywhere leaves the client waiting.
`parses_testimonyConnect`: the client reads greetings as they are meant.
-/

set_option autoImplicit false

namespace Testimony.Client

open Lib Lib.BigEndian Source Wire Handshake

/-- The parameters as `t->conn` holds them. -/
def Connection.ofParams (p : Params) : Connection :=
  ⟨p.fanoutSize.toInt32, p.blockSize.toNat, p.numBlocks.toNat, 0⟩

/-- The three fields of the connection are those of the parameters. -/
theorem ofParams_injective {p q : Params} (h : Connection.ofParams p = .ofParams q) : p = q := by
  obtain ⟨h₁, h₂, h₃, -⟩ := Connection.mk.inj h
  exact Params.ext (congrArg Int32.toUInt32 h₁) (UInt32.toNat_inj.mp h₂) (UInt32.toNat_inj.mp h₃)

/-- The `switch` on a 4-byte value notes the TLV. -/
theorem store_ofParams (p : Params) (t : Tlv) :
    (Connection.ofParams p).store t.typ.toUInt32 (uint32 t.val) = .ofParams (p.note t) := by
  unfold Connection.store Params.note
  simp only [UInt16.toUInt32_inj]
  split
  · rfl
  · split
    · rfl
    · split <;> rfl

/-- A TLV with a value of another length is no parameter. -/
theorem note_of_length_ne {t : Tlv} (ht : Conforms t) (h : t.val.length ≠ 4) (p : Params) :
    p.note t = p := by
  rw [Params.note, if_neg (fun he => h (ht.fanoutSize he)), if_neg (fun he => h (ht.blockSize he)),
    if_neg (fun he => h (ht.numBlocks he))]

/-! ### The loop -/

/-- What a round does with the head of a TLV. -/
def connectRound (rounds : Nat) (conn : Connection) (t : Tlv) :
    EStateM (Stop ConnectMsg) Sock Connection :=
  if t.typ = typeWaitingForFanoutIndex ∧ t.val.length = 0 then pure conn
  else if t.val.length = 4 then
    terr (.recvValue t.typ.toUInt32) recvBe32 >>= fun msg =>
      connectLoop rounds (conn.store t.typ.toUInt32 msg)
  else
    terr (.discardValue t.typ.toUInt32) (discardBytes t.val.length) >>= fun _ =>
      connectLoop rounds conn

/-- The loop on the head of a TLV. -/
theorem connectLoop_head (rounds : Nat) (conn : Connection) (t : Tlv) :
    ∃ g, connectLoop (rounds + 1) conn = (terr .recvHead recvBe32 >>= g) ∧
      g (toTL t.typ t.val.length) = connectRound rounds conn t := by
  have htyp := protocolType_toTL t.two_pow_le t.short
  have hlen := toNat_protocolLength_toTL t.two_pow_le t.short
  have h0 : protocolLength (toTL t.typ t.val.length) = 0 ↔ t.val.length = 0 := by
    rw [← UInt32.toNat_inj, hlen]
    rfl
  have h4 : protocolLength (toTL t.typ t.val.length) = 4 ↔ t.val.length = 4 := by
    rw [← UInt32.toNat_inj, hlen]
    rfl
  refine ⟨_, rfl, ?_⟩
  simp only [htyp, hlen, h0, h4, UInt16.toUInt32_inj, connectRound]

/-- A TLV other than `WaitingForFanoutIndex` is noted and read completely. -/
theorem notes_connectLoop :
    Notes fun rounds p => connectLoop rounds (Connection.ofParams p) := by
  intro t ht hne rounds p
  show Steps (connectLoop (rounds + 1) (.ofParams p)) t.bytes
    (connectLoop rounds (.ofParams (p.note t)))
  obtain ⟨g, heq, hg⟩ := connectLoop_head rounds (.ofParams p) t
  rw [heq, Tlv.bytes]
  refine (reads_terr _ (reads_recvBe32 _)).steps.trans ?_
  rw [hg, connectRound, if_neg (fun hw => hne hw.1)]
  split
  · rename_i h4
    rw [← store_ofParams]
    exact (reads_terr _ (reads_recvBe32_of_length h4)).steps
  · rename_i h4
    rw [note_of_length_ne ht h4 p]
    exact (reads_terr _ (reads_discardBytes t.val)).steps

/-- The loop ends at `WaitingForFanoutIndex`. -/
theorem reads_connectLoop_waiting {w : Tlv} (hw : Conforms w)
    (htyp : w.typ = typeWaitingForFanoutIndex) (rounds : Nat) (conn : Connection) :
    Reads (connectLoop (rounds + 1) conn) w.bytes conn := by
  obtain ⟨g, heq, hg⟩ := connectLoop_head rounds conn w
  have hval := hw.waiting htyp
  rw [heq, Tlv.bytes, hval, List.append_nil]
  rw [hval] at hg
  refine (reads_terr _ (reads_recvBe32 _)).bind_pure (hg.trans ?_)
  rw [connectRound, if_pos ⟨htyp, by rw [hval]; rfl⟩]

/-- A TLV that breaks off leaves the loop waiting. -/
theorem halts_connectLoop_part {t : Tlv} {part : List UInt8} (h : part <+: t.bytes)
    (hlen : part.length < t.bytes.length) (rounds : Nat) (conn : Connection) :
    Halts .blocked (connectLoop (rounds + 1) conn) part := by
  obtain ⟨g, heq, hg⟩ := connectLoop_head rounds conn t
  rw [heq]
  by_cases h4 : part.length < 4
  · exact (halts_terr _ (halts_recvBe32 h4)).bind
  -- The head is there, so it is the value that breaks off.
  obtain ⟨value, rfl⟩ : putUint32 (toTL t.typ t.val.length) <+: part :=
    List.prefix_of_prefix_length_le ⟨t.val, rfl⟩ h (by rw [length_putUint32]; omega)
  have hvalue : value.length < t.val.length := by
    rw [Tlv.bytes, List.length_append, List.length_append] at hlen
    omega
  refine (reads_terr _ (reads_recvBe32 _)).bind_halts ?_
  rw [hg, connectRound, if_neg (by omega)]
  split
  · exact (halts_terr _ (halts_recvBe32 (by omega))).bind
  · exact (halts_terr _ (halts_discardBytes hvalue)).bind

/-! ### The handshake -/

/-- The check behind the loop. -/
def checkConnection (conn : Connection) : EStateM (Stop ConnectMsg) Sock Connection :=
  if conn.fanoutSize = 0 ∨ conn.blockSize = 0 ∨ conn.blockNr = 0 then
    throw (.fail .EINVAL .missing)
  else pure conn

/-- `testimony_connect` reads the version, then the parameters, and checks them at the end. -/
theorem testimonyConnect_eq : testimonyConnect =
    (terr .recvVersion (recvT 1) >>= fun bytes =>
      if bytes.headD 0 ≠ protocolVersion then
        throw (.fail .EPROTONOSUPPORT (.unsupportedVersion (bytes.headD 0)))
      else (get >>= fun t => connectLoop ((pending t).length + 1) (.ofParams .none)) >>=
        checkConnection) := rfl

/-- The check passes when the parameters are complete. -/
theorem checkConnection_ofParams (p : Params) : checkConnection (.ofParams p) =
    if p.fanoutSize = 0 ∨ p.blockSize = 0 ∨ p.numBlocks = 0 then throw (.fail .EINVAL .missing)
    else pure (.ofParams p) := by
  have h₁ : p.fanoutSize.toInt32 = 0 ↔ p.fanoutSize = 0 :=
    ⟨fun h => congrArg Int32.toUInt32 h, fun h => by rw [h]; rfl⟩
  have h₂ : p.blockSize.toNat = 0 ↔ p.blockSize = 0 := UInt32.toNat_inj (b := 0)
  have h₃ : p.numBlocks.toNat = 0 ↔ p.numBlocks = 0 := UInt32.toNat_inj (b := 0)
  simp only [checkConnection, Connection.ofParams, h₁, h₂, h₃]

/-! ### Any input -/

/-- The `switch` stores 32-bit numbers, whatever the type. -/
theorem exists_store_ofParams (p : Params) (typ msg : UInt32) :
    ∃ q, (Connection.ofParams p).store typ msg = .ofParams q := by
  unfold Connection.store
  split
  · exact ⟨{ p with fanoutSize := msg }, rfl⟩
  · split
    · exact ⟨{ p with blockSize := msg }, rfl⟩
    · split
      · exact ⟨{ p with numBlocks := msg }, rfl⟩
      · exact ⟨p, rfl⟩

/-- The loop returns a connection of parameters, whatever the server sends. -/
theorem returns_connectLoop (rounds : Nat) : ∀ p : Params,
    Returns (connectLoop rounds (.ofParams p)) fun conn => ∃ q, conn = .ofParams q := by
  induction rounds with
  | zero => exact fun p => Returns.throw _
  | succ rounds ih =>
      intro p
      refine Returns.of_bind fun msg => Returns.ite (fun _ => Returns.pure ⟨p, rfl⟩) fun _ => ?_
      refine Returns.ite (fun _ => ?_) fun _ => Returns.of_bind fun _ => ih p
      refine Returns.of_bind fun value => ?_
      obtain ⟨q, hq⟩ := exists_store_ofParams p (protocolType msg) value
      rw [hq]
      exact ih q

/-- A connection has blocks, and their number and size have 32 bits. -/
theorem returns_testimonyConnect : Returns testimonyConnect fun conn =>
    ∃ p : Params, conn = .ofParams p ∧ p.blockSize ≠ 0 ∧ p.numBlocks ≠ 0 := by
  rw [testimonyConnect_eq]
  refine Returns.of_bind fun bytes => Returns.ite (fun _ => Returns.throw _) fun _ => ?_
  refine Returns.bind (P := fun conn => ∃ q, conn = .ofParams q) ?_ ?_
  · exact Returns.of_bind fun t => returns_connectLoop _ .none
  · rintro _ ⟨p, rfl⟩
    rw [checkConnection_ofParams]
    refine Returns.ite (fun _ => Returns.throw _) fun hcomplete => Returns.pure ⟨p, rfl, ?_⟩
    tauto

/-! ### Greetings -/

/-- Behind the version byte comes the loop. -/
theorem steps_version : Steps testimonyConnect [2]
    ((get >>= fun t => connectLoop ((pending t).length + 1) (.ofParams .none)) >>=
      checkConnection) := by
  rw [testimonyConnect_eq]
  exact (reads_terr _ (reads_recvT [2])).steps

/-- Up to `WaitingForFanoutIndex`, the greeting is read and noted. -/
theorem steps_testimonyConnect {before : List Tlv} {w : Tlv} (hconf : ∀ t ∈ before, Conforms t)
    (hne : ∀ t ∈ before, t.typ ≠ typeWaitingForFanoutIndex) (hw : Conforms w)
    (htyp : w.typ = typeWaitingForFanoutIndex) :
    Steps testimonyConnect (2 :: (stream before ++ w.bytes))
      (checkConnection (.ofParams (before.foldl Params.note .none))) :=
  steps_version.trans
    (notes_connectLoop.reads hconf hne
      (fun rounds p => reads_connectLoop_waiting hw htyp rounds (.ofParams p)) .none).steps

/-- A greeting that breaks off leaves the client waiting. -/
theorem halts_testimonyConnect {ts : List Tlv} {t : Tlv} {part : List UInt8}
    (hconf : ∀ t ∈ ts, Conforms t) (hne : ∀ t ∈ ts, t.typ ≠ typeWaitingForFanoutIndex)
    (hpart : part <+: t.bytes) (hlt : part.length < t.bytes.length) :
    Halts .blocked testimonyConnect (2 :: (stream ts ++ part)) :=
  steps_version.halts
    (notes_connectLoop.halts hconf hne
      (fun rounds p => halts_connectLoop_part hpart hlt rounds (.ofParams p)) .none).bind

/-- The C client reads greetings as they are meant. -/
theorem parses_testimonyConnect : Parses testimonyConnect Connection.ofParams := by
  apply parses_of
  case hversion =>
    intro version rest t hv ht
    obtain ⟨t', heq, -, -⟩ :=
      reads_terr ConnectMsg.recvVersion (reads_recvT [version]) t rest ht
    rw [List.length_singleton] at heq
    refine ⟨.fail .EPROTONOSUPPORT (.unsupportedVersion version), t', ?_⟩
    rw [testimonyConnect_eq, bind_ok heq,
      if_pos (show [version].headD 0 ≠ protocolVersion from hv)]
    rfl
  case hnone =>
    intro ts t hconf hne ht
    obtain ⟨e, t', heq, -⟩ := halts_testimonyConnect hconf hne
      (List.nil_prefix (l := (Tlv.ofType typeWaitingForFanoutIndex (by decide)).bytes)) (by decide)
      t (by rw [ht, List.append_nil])
    exact ⟨e, t', heq⟩
  case hwaiting =>
    intro before w rest t hconf hne hw htyp ht
    obtain ⟨t', heq, hpending, -⟩ := steps_testimonyConnect hconf hne hw htyp t rest ht
    rw [checkConnection_ofParams] at heq
    constructor
    · rintro ⟨h₁, h₂, h₃⟩
      rw [if_neg (by simp [h₁, h₂, h₃])] at heq
      exact ⟨t', heq, hpending⟩
    · intro h
      rw [if_pos (by unfold Params.Complete at h; tauto)] at heq
      exact ⟨_, t', heq⟩

end Testimony.Client
