import Testimony.Daemon.Handle
import Testimony.Proofs.Client.Connect
import Testimony.Proofs.GoClient.Connect

/-!
# `Testimony.Proofs.Handshake`: the two clients agree on the handshake

`connect_agrees`: on every conforming greeting, the C and the Go client succeed together, with
the same parameters and with the same bytes left to read.

The greeting of `Testimony.handle` is one of them (`greeting_eq`), and what it settles on are
the socket's own numbers modulo `2 ^ 32` (`eq_sent_of_greeting`).
-/

set_option autoImplicit false

namespace Testimony.Handshake

open Lib Lib.BigEndian Source Wire Daemon

/-! ### The greeting of the daemon -/

/-- The parameters the daemon sends. -/
def Params.sent (fanoutSize : Nat) (conf : SocketConfig) : Params :=
  ⟨UInt32.ofNat fanoutSize, UInt32.ofInt conf.blockSize, UInt32.ofInt conf.numBlocks⟩

/-- The TLVs that carry them. -/
def Params.tlvs (p : Params) : List Tlv :=
  [.ofUint32 typeFanoutSize p.fanoutSize (by decide),
    .ofUint32 typeBlockSize p.blockSize (by decide),
    .ofUint32 typeNumBlocks p.numBlocks (by decide)]

/-- The TLV behind them. -/
def waiting : Tlv := .ofType typeWaitingForFanoutIndex (by decide)

/-- What the daemon writes first: its version, the parameters, and the message that ends them. -/
theorem greeting_eq (fanoutSize : Nat) (conf : SocketConfig) :
    greeting fanoutSize conf =
      .ok (2 :: (stream (Params.sent fanoutSize conf).tlvs ++ waiting.bytes)) := by
  have send : ∀ typ val h, sendUint32 typ val = .ok (Tlv.ofUint32 typ val h).bytes :=
    fun typ val h => sendTLV_tlv (.ofUint32 typ val h)
  have wait : sendType typeWaitingForFanoutIndex = .ok waiting.bytes := sendTLV_tlv waiting
  rw [greeting, send typeFanoutSize _ (by decide), send typeBlockSize _ (by decide),
    send typeNumBlocks _ (by decide), wait]
  simp [stream, Params.tlvs, Params.sent, protocolVersion, bind, Except.bind, pure, Except.pure]

/-- The parameters do not contain the message that ends them. -/
theorem tlvs_ne_waiting (p : Params) : ∀ t ∈ p.tlvs, t.typ ≠ typeWaitingForFanoutIndex := by
  intro t ht
  simp only [Params.tlvs, List.mem_cons, List.not_mem_nil, or_false] at ht
  rcases ht with rfl | rfl | rfl
  · exact show typeFanoutSize ≠ typeWaitingForFanoutIndex by decide
  · exact show typeBlockSize ≠ typeWaitingForFanoutIndex by decide
  · exact show typeNumBlocks ≠ typeWaitingForFanoutIndex by decide

/-- The parameters have values of the right size. -/
theorem conforms_tlvs (p : Params) : ∀ t ∈ p.tlvs, Conforms t := by
  intro t ht
  have hlen : t.val.length = 4 := by
    simp only [Params.tlvs, List.mem_cons, List.not_mem_nil, or_false] at ht
    rcases ht with rfl | rfl | rfl <;> rfl
  exact ⟨fun _ => hlen, fun _ => hlen, fun _ => hlen, fun h => absurd h (tlvs_ne_waiting p t ht)⟩

/-- The message that ends the parameters is empty, as it should be. -/
theorem conforms_waiting : Conforms waiting := by decide

/-- Noting the daemon's TLVs leaves the parameters they carry. -/
theorem note_tlvs (p q : Params) : p.tlvs.foldl Params.note q = p := by
  simp [Params.tlvs, Params.note, Tlv.ofUint32, show typeBlockSize ≠ typeFanoutSize by decide,
    show typeNumBlocks ≠ typeFanoutSize by decide, show typeNumBlocks ≠ typeBlockSize by decide]

/-- The daemon's greeting settles on what it carries, if none of it is zero. -/
theorem negotiates_tlvs (p q : Params) (rest rest' : List Tlv) :
    Negotiates 2 (p.tlvs ++ waiting :: rest) q rest' ↔ q = p ∧ p.Complete ∧ rest' = rest := by
  rw [negotiates_iff (show waiting.typ = _ from rfl) (tlvs_ne_waiting p), note_tlvs]
  constructor
  · rintro ⟨rfl, h⟩
    exact ⟨rfl, h⟩
  · rintro ⟨rfl, h⟩
    exact ⟨rfl, h⟩

/-- A conversion to `uint32` takes the number modulo `2 ^ 32`. -/
theorem toNat_ofInt (n : Int) : ((UInt32.ofInt n).toNat : Int) = n % 2 ^ 32 := by
  rw [UInt32.ofInt, UInt32.toNat_ofNat']
  omega

/-- Whatever TLVs one reads out of the daemon's greeting, they settle on what was sent. The C
client is the judge here: it reads the same bytes both times. -/
theorem eq_sent_of_greeting {version : UInt8} {ts rest : List Tlv} {p : Params}
    {fanoutSize : Nat} {conf : SocketConfig} (hts : ∀ t ∈ ts, Conforms t)
    (hgreet : greeting fanoutSize conf = .ok (version :: stream ts))
    (h : Negotiates version ts p rest) : p = .sent fanoutSize conf ∧ rest = [] := by
  have hbytes : version :: stream ts =
      2 :: stream ((Params.sent fanoutSize conf).tlvs ++ [waiting]) := by
    rw [greeting_eq] at hgreet
    rw [← Except.ok.inj hgreet, stream_append, stream_cons]
    simp [stream]
  let t : Client.Sock := ⟨version :: stream ts, []⟩
  have ht : pending t = version :: stream ts := List.append_nil _
  obtain ⟨t₁, hok, hrest⟩ := (Client.parses_testimonyConnect version ts t hts ht).1 p rest h
  have hsent : ∀ u ∈ (Params.sent fanoutSize conf).tlvs ++ [waiting], Conforms u := by
    intro u hu
    rcases List.mem_append.mp hu with hu | hu
    · exact conforms_tlvs _ u hu
    · exact List.mem_singleton.mp hu ▸ conforms_waiting
  obtain ⟨hsOk, hsOnly⟩ := Client.parses_testimonyConnect 2 _ t hsent (ht.trans hbytes)
  obtain ⟨q, rest', hq⟩ := hsOnly ⟨_, t₁, hok⟩
  obtain ⟨t₂, hok₂, hrest₂⟩ := hsOk q rest' hq
  obtain ⟨rfl, -, rfl⟩ := (negotiates_tlvs _ q [] rest').mp hq
  rw [hok] at hok₂
  obtain ⟨hparams, rfl⟩ := EStateM.Result.ok.inj hok₂
  refine ⟨Client.ofParams_injective hparams, List.eq_nil_of_length_eq_zero (Nat.le_zero.mp ?_)⟩
  have hlen := length_le_stream rest
  rw [← hrest, hrest₂] at hlen
  exact hlen

/-! ### Agreement -/

/-- Where a greeting settles on `p`, both clients hold `p` and have read the greeting to its
last byte. -/
def Agree (p : Params) (rest : List UInt8) (t : Client.Sock) (segs : List Seg) : Prop :=
  ∃ t' segs', Client.testimonyConnect t = .ok (.ofParams p) t' ∧ pending t' = rest ∧
    GoClient.connect segs = .ok (.ofParams p) segs' ∧ pending segs' = rest

/-- The two handshake parsers agree on every conforming server, however the kernels on the two
sides cut the stream. They succeed together, namely on the greetings that settle on parameters,
and then hold those and have the same bytes left. On the stream `handle` sends, the parameters
are the number of sockets, `BlockSize` and `NumBlocks` modulo `2 ^ 32`. -/
theorem connect_agrees (version : UInt8) (ts : List Tlv) (hts : ∀ t ∈ ts, Conforms t)
    (t : Client.Sock) (segs : List Seg) (ht : pending t = version :: stream ts)
    (hsegs : pending segs = version :: stream ts) :
    ((∃ c segs', GoClient.connect segs = .ok c segs') ↔
      ∃ c t', Client.testimonyConnect t = .ok c t') ∧
    ((∃ c t', Client.testimonyConnect t = .ok c t') ↔ ∃ p rest, Negotiates version ts p rest) ∧
    (∀ p rest, Negotiates version ts p rest → Agree p (stream rest) t segs) ∧
    (∀ fanoutSize conf p rest, greeting fanoutSize conf = .ok (version :: stream ts) →
      Negotiates version ts p rest → rest = [] ∧
        p.fanoutSize.toNat = fanoutSize % 2 ^ 32 ∧
        (p.blockSize.toNat : Int) = conf.blockSize % 2 ^ 32 ∧
        (p.numBlocks.toNat : Int) = conf.numBlocks % 2 ^ 32) := by
  obtain ⟨hcOk, hcOnly⟩ := Client.parses_testimonyConnect version ts t hts ht
  obtain ⟨hgOk, hgOnly⟩ := GoClient.parses_connect version ts segs hts hsegs
  have hc : (∃ c t', Client.testimonyConnect t = .ok c t') ↔
      ∃ p rest, Negotiates version ts p rest := by
    refine ⟨hcOnly, ?_⟩
    rintro ⟨p, rest, h⟩
    obtain ⟨t', hok, -⟩ := hcOk p rest h
    exact ⟨_, t', hok⟩
  have hg : (∃ c segs', GoClient.connect segs = .ok c segs') ↔
      ∃ p rest, Negotiates version ts p rest := by
    refine ⟨hgOnly, ?_⟩
    rintro ⟨p, rest, h⟩
    obtain ⟨segs', hok, -⟩ := hgOk p rest h
    exact ⟨_, segs', hok⟩
  refine ⟨hg.trans hc.symm, hc, ?_, ?_⟩
  · intro p rest h
    obtain ⟨t', hcok, hcrest⟩ := hcOk p rest h
    obtain ⟨segs', hgok, hgrest⟩ := hgOk p rest h
    exact ⟨t', segs', hcok, hcrest, hgok, hgrest⟩
  · intro fanoutSize conf p rest hgreet h
    obtain ⟨rfl, rfl⟩ := eq_sent_of_greeting hts hgreet h
    exact ⟨rfl, UInt32.toNat_ofNat', toNat_ofInt _, toNat_ofInt _⟩

/-- A greeting with a type neither client knows, a repeated parameter, and a TLV behind the
`WaitingForFanoutIndex`. -/
def repeated : List Tlv :=
  [.ofUint32 typeFanoutSize 7 (by decide), ⟨0x8010, [1, 2, 3], by decide, by decide⟩,
    .ofUint32 typeNumBlocks 16 (by decide), .ofUint32 typeBlockSize 65536 (by decide),
    .ofUint32 typeFanoutSize 3 (by decide), waiting, ⟨0x8010, [4], by decide, by decide⟩]

/-- Cut `bytes` after `n`, with a signal in between. -/
def cutAt (n : Nat) (bytes : List UInt8) : List Seg :=
  Seg.unread (bytes.take n) (.eintr :: Seg.unread (bytes.drop n) [])

/-- Both clients read the greeting of `repeated`, each with a cut and a signal at another place. -/
theorem connect_agrees_repeated :
    (∀ t ∈ repeated, Conforms t) ∧
    Agree ⟨3, 65536, 16⟩ (stream [⟨0x8010, [4], by decide, by decide⟩])
      ⟨[], cutAt 10 (2 :: stream repeated)⟩ (cutAt 2 (2 :: stream repeated)) := by
  have hconf : ∀ t ∈ repeated, Conforms t := by decide
  refine ⟨hconf, ?_⟩
  refine (connect_agrees 2 repeated hconf ⟨[], cutAt 10 (2 :: stream repeated)⟩
    (cutAt 2 (2 :: stream repeated)) (by decide) (by decide)).2.2.1 _ _ ?_
  exact ⟨rfl, ⟨repeated.take 5, waiting, rfl, rfl, by decide, by decide, by decide, by decide⟩,
    by decide, by decide, by decide⟩

end Testimony.Handshake
