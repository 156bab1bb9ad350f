import Testimony.Handshake
import Testimony.Proofs.GoClient.Read

/-!
# `Testimony.Proofs.GoClient.Connect`: what `Connect` reads

`parses_connect`: the Go client reads greetings as they are meant.
-/

set_option autoImplicit false

namespace Testimony.GoClient

open Lib Lib.BigEndian Source Wire Handshake

/-- The parameters as a `Conn` holds them. -/
def Conn.ofParams (p : Params) : Conn :=
  ⟨p.numBlocks.toNat, p.blockSize.toNat, p.fanoutSize.toNat⟩

/-- The `switch` on the type of a TLV, with the value read. -/
def tlvRound (rounds : Nat) (c : Conn) (t : Tlv) (val : List UInt8) :
    EStateM (Stop ConnectError) (List Seg) Conn :=
  if t.typ = typeWaitingForFanoutIndex then pure c
  else if t.typ = typeFanoutSize then
    if t.val.length ≠ 4 then throw (.fail (.invalidFanoutSizeLength t.val.length))
    else tlvLoop rounds { c with fanoutSize := (uint32 val).toNat }
  else if t.typ = typeBlockSize then
    if t.val.length ≠ 4 then throw (.fail (.invalidBlockSizeLength t.val.length))
    else tlvLoop rounds { c with blockSize := (uint32 val).toNat }
  else if t.typ = typeNumBlocks then
    if t.val.length ≠ 4 then throw (.fail (.invalidNumBlocksLength t.val.length))
    else tlvLoop rounds { c with numBlocks := (uint32 val).toNat }
  else tlvLoop rounds c

/-- The loop on a server-to-client TLV: the value is read before the type is looked at. -/
theorem tlvLoop_head (rounds : Nat) (c : Conn) (t : Tlv) :
    ∃ g, tlvLoop (rounds + 1) c = (wrap .initialTLV (readFull 4) >>= g) ∧
      g (putUint32 (toTL t.typ t.val.length)) =
        (wrap .initialVal (readFull t.val.length) >>= tlvRound rounds c t) := by
  refine ⟨_, rfl, ?_⟩
  have hhead : tlFrom (uint32 (putUint32 (toTL t.typ t.val.length))) = (t.typ, t.val.length) := by
    rw [uint32_putUint32, t.tlFrom_head]
  simp only [hhead]
  rw [if_neg (by rw [t.server]; simp)]
  rfl

/-- The `switch` notes the TLV. -/
theorem tlvRound_ofParams {t : Tlv} (ht : Conforms t) (hne : t.typ ≠ typeWaitingForFanoutIndex)
    (rounds : Nat) (p : Params) :
    tlvRound rounds (.ofParams p) t t.val = tlvLoop rounds (.ofParams (p.note t)) := by
  unfold tlvRound Params.note
  rw [if_neg hne]
  split
  · rename_i htyp
    rw [if_neg (by simp [ht.fanoutSize htyp])]
    rfl
  · split
    · rename_i htyp
      rw [if_neg (by simp [ht.blockSize htyp])]
      rfl
    · split
      · rename_i htyp
        rw [if_neg (by simp [ht.numBlocks htyp])]
        rfl
      · rfl

/-- The loop of the Go client notes one message after the other. -/
theorem notes_tlvLoop : Notes fun rounds p => tlvLoop rounds (Conn.ofParams p) := by
  intro t ht hne rounds p
  show Steps (tlvLoop (rounds + 1) (.ofParams p)) t.bytes (tlvLoop rounds (.ofParams (p.note t)))
  obtain ⟨g, heq, hg⟩ := tlvLoop_head rounds (.ofParams p) t
  rw [heq, Tlv.bytes, ← tlvRound_ofParams ht hne]
  refine (reads_wrap _ (reads_readFull _)).steps.trans ?_
  rw [hg]
  exact (reads_wrap _ (reads_readFull t.val)).steps

/-- The loop ends at `WaitingForFanoutIndex`. -/
theorem reads_tlvLoop_waiting {w : Tlv} (htyp : w.typ = typeWaitingForFanoutIndex) (rounds : Nat)
    (c : Conn) : Reads (tlvLoop (rounds + 1) c) w.bytes c := by
  obtain ⟨g, heq, hg⟩ := tlvLoop_head rounds c w
  rw [heq, Tlv.bytes]
  refine (reads_wrap _ (reads_readFull _)).bind ?_
  rw [hg]
  exact (reads_wrap _ (reads_readFull w.val)).bind_pure (if_pos htyp)

/-- Before a message the loop waits. -/
theorem halts_tlvLoop_nil (rounds : Nat) (c : Conn) :
    Halts .blocked (tlvLoop (rounds + 1) c) [] :=
  (halts_wrap _ (halts_readFull (show [].length < 4 by decide))).bind

/-! ### The handshake -/

/-- The check behind the loop. -/
def checkConn (t : Conn) : EStateM (Stop ConnectError) (List Seg) Conn :=
  if t.fanoutSize ≤ 0 ∨ t.blockSize ≤ 0 ∨ t.numBlocks ≤ 0 then throw (.fail .missing)
  else pure t

/-- `Connect` reads the version, then the parameters, and checks them at the end. -/
theorem connect_eq : connect =
    (wrap .initialByte (readFull 1) >>= fun bytes =>
      if bytes.headD 0 ≠ protocolVersion then
        throw (.fail (.protocolMismatch protocolVersion (bytes.headD 0)))
      else (get >>= fun segs => tlvLoop ((pending segs).length + 1) (.ofParams .none)) >>=
        checkConn) := rfl

/-- The check passes when the parameters are complete. -/
theorem checkConn_ofParams (p : Params) : checkConn (.ofParams p) =
    if p.fanoutSize = 0 ∨ p.blockSize = 0 ∨ p.numBlocks = 0 then throw (.fail .missing)
    else pure (.ofParams p) := by
  have h : ∀ x : UInt32, (x.toNat : Int) ≤ 0 ↔ x = 0 := by
    intro x
    rw [← UInt32.toNat_inj, UInt32.toNat_zero]
    omega
  simp only [checkConn, Conn.ofParams, h]

/-! ### Any input -/

/-- Whatever comes, the fields are 32-bit numbers. -/
theorem returns_tlvLoop (rounds : Nat) : ∀ p : Params,
    Returns (tlvLoop rounds (.ofParams p)) fun c => ∃ q, c = .ofParams q := by
  induction rounds with
  | zero => exact fun p => Returns.throw _
  | succ rounds ih =>
      intro p
      refine Returns.of_bind fun buf => Returns.ite (fun _ => Returns.throw _) fun _ => ?_
      refine Returns.of_bind fun val => Returns.ite (fun _ => Returns.pure ⟨p, rfl⟩) fun _ => ?_
      refine Returns.ite (fun _ => ?_) fun _ => Returns.ite (fun _ => ?_) fun _ =>
        Returns.ite (fun _ => ?_) fun _ => ih p
      · exact Returns.ite (fun _ => Returns.throw _) fun _ => ih { p with fanoutSize := uint32 val }
      · exact Returns.ite (fun _ => Returns.throw _) fun _ => ih { p with blockSize := uint32 val }
      · exact Returns.ite (fun _ => Returns.throw _) fun _ => ih { p with numBlocks := uint32 val }

/-- A connection has blocks, and their number and size have 32 bits. -/
theorem returns_connect : Returns connect fun c => ∃ p : Params, c = .ofParams p ∧
    p.blockSize ≠ 0 ∧ p.numBlocks ≠ 0 := by
  rw [connect_eq]
  refine Returns.of_bind fun bytes => Returns.ite (fun _ => Returns.throw _) fun _ => ?_
  refine Returns.bind (P := fun c => ∃ q, c = .ofParams q) ?_ ?_
  · exact Returns.of_bind fun segs => returns_tlvLoop _ .none
  · rintro _ ⟨p, rfl⟩
    rw [checkConn_ofParams]
    refine Returns.ite (fun _ => Returns.throw _) fun hcomplete => Returns.pure ⟨p, rfl, ?_⟩
    tauto

/-! ### Greetings -/

/-- Behind the version byte comes the loop. -/
theorem steps_version : Steps connect [2]
    ((get >>= fun segs => tlvLoop ((pending segs).length + 1) (.ofParams .none)) >>=
      checkConn) := by
  rw [connect_eq]
  exact (reads_wrap _ (reads_readFull [2])).steps

/-- The Go client reads greetings as they are meant. -/
theorem parses_connect : Parses connect Conn.ofParams := by
  apply parses_of
  case hversion =>
    intro version rest segs hv hs
    obtain ⟨segs', heq, -, -⟩ :=
      reads_wrap ConnectError.initialByte (reads_readFull [version]) segs rest hs
    rw [List.length_singleton] at heq
    refine ⟨.fail (.protocolMismatch protocolVersion version), segs', ?_⟩
    rw [connect_eq, bind_ok heq, if_pos (show [version].headD 0 ≠ protocolVersion from hv)]
    rfl
  case hnone =>
    intro ts segs hconf hne hs
    have hhalts := steps_version.halts (notes_tlvLoop.halts hconf hne
      (fun rounds p => halts_tlvLoop_nil rounds (.ofParams p)) .none).bind
    obtain ⟨e, segs', heq, -⟩ := hhalts segs (by rw [hs, List.append_nil]; rfl)
    exact ⟨e, segs', heq⟩
  case hwaiting =>
    intro before w rest segs hconf hne hw htyp hs
    have hsteps := steps_version.trans (notes_tlvLoop.reads hconf hne
      (fun rounds p => reads_tlvLoop_waiting htyp rounds (.ofParams p)) .none).steps
    obtain ⟨segs', heq, hpending, -⟩ := hsteps segs rest hs
    rw [checkConn_ofParams] at heq
    constructor
    · rintro ⟨h₁, h₂, h₃⟩
      rw [if_neg (by simp [h₁, h₂, h₃])] at heq
      exact ⟨segs', heq, hpending⟩
    · intro h
      rw [if_pos (by unfold Params.Complete at h; tauto)] at heq
      exact ⟨_, segs', heq⟩

end Testimony.GoClient
