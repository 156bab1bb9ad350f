import Testimony.Lib.BigEndian

/-!
# `Testimony.Wire`: the message format of `go/protocol/protocol.go`

Everything the two sides exchange after the version byte is a 4-byte big-endian word. With
the top bit clear it is a block index. With the top bit set it is the head of a TLV: a
16-bit type, a 16-bit length, and that many value bytes behind it.

The constants, `typeOf`, `tlFrom`, `toTL` and `sendTLV` are the functions of the source.
The theorems say what a TLV head decodes to (`tlFrom_toTL`), that a sendable type always
sets the top bit (`two_pow_le_of_typeOf`), and that a word below `2 ^ 31` is never taken
for a TLV (`tlFrom_of_lt`).
-/

set_option autoImplicit false

namespace Testimony.Wire

open Lib.BigEndian

/-! ### Types -/

/-- `protocol.Type`. -/
abbrev MsgType := UInt16

/-- Not a message of its own: a word whose top bit is clear is the index of a block. -/
def typeBlockIndex : MsgType := 0
/-- The lower end of the types that a server sends. No message has it. -/
def typeServerToClient : MsgType := 0x8001
/-- The server has sent all parameters and waits for the client's choice. -/
def typeWaitingForFanoutIndex : MsgType := 0x8002
/-- The number of sockets in the fan-out group. -/
def typeFanoutSize : MsgType := 0x8003
/-- The number of bytes in a block. -/
def typeBlockSize : MsgType := 0x8004
/-- The number of blocks in the ring. -/
def typeNumBlocks : MsgType := 0x8005
/-- The lower end of the types that a client sends. No message has it. -/
def typeClientToServer : MsgType := 0xC006
/-- The client's choice of a socket. -/
def typeFanoutIndex : MsgType := 0xC007
/-- No type of a message: what `TypeOf` answers for anything else. -/
def typeError : MsgType := 0xFFFF

/-- `protocolVersion`, the same constant in the daemon and in both clients. -/
def protocolVersion : UInt8 := 2

/-- The high-level type of a type. -/
def typeOf (t : MsgType) : MsgType :=
  if t &&& 0x8000 = 0 then typeBlockIndex
  else if typeServerToClient < t ∧ t < typeClientToServer then typeServerToClient
  else if typeClientToServer < t ∧ t < typeError then typeClientToServer
  else typeError

/-- Split a word into a type and a length. -/
def tlFrom (num : UInt32) : MsgType × Nat :=
  if num &&& 0x80000000 = 0 then (typeBlockIndex, 0)
  else ((num >>> 16).toUInt16, (num &&& 0xFFFF).toNat)

/-- Join a type and a length into a word. -/
def toTL (typ : MsgType) (length : Nat) : UInt32 :=
  (typ.toUInt32 <<< 16) + UInt32.ofNat length

/-- The errors `SendTLV` returns before it writes anything. -/
inductive SendError where
  | invalidSendType (typ : MsgType)
  | tooLongValue (length : Nat)
  deriving DecidableEq, Repr

/-- `SendTLV`: the bytes handed to `to.Write`. -/
def sendTLV (typ : MsgType) (val : List UInt8) : Except SendError (List UInt8) :=
  if typeOf typ ≠ typeServerToClient ∧ typeOf typ ≠ typeClientToServer then
    .error (.invalidSendType typ)
  else if val.length > 0xFFFF then
    .error (.tooLongValue val.length)
  else .ok (putUint32 (toTL typ val.length) ++ val)

/-- `SendType`. -/
def sendType (typ : MsgType) : Except SendError (List UInt8) := sendTLV typ []

/-- `SendUint32`. -/
def sendUint32 (typ : MsgType) (val : UInt32) : Except SendError (List UInt8) :=
  sendTLV typ (putUint32 val)

/-! ### What a head decodes to -/

/-- A type that `SendTLV` takes has its top bit set. -/
theorem two_pow_le_of_typeOf {t : MsgType} (h : typeOf t ≠ typeBlockIndex) :
    2 ^ 15 ≤ t.toNat := by
  by_contra hlt
  apply h
  unfold typeOf
  rw [if_pos ((and_top16_eq_zero t).mpr (by omega))]

/-- A word without the top bit is a block index, whatever its value. -/
theorem tlFrom_of_lt {num : UInt32} (h : num.toNat < 2 ^ 31) :
    tlFrom num = (typeBlockIndex, 0) := by
  unfold tlFrom
  rw [if_pos ((and_top_eq_zero num).mpr h)]

/-- The type and the length stand side by side in the word of a header. -/
theorem toNat_toTL (typ : MsgType) {length : Nat} (h : length < 2 ^ 16) :
    (toTL typ length).toNat = typ.toNat * 2 ^ 16 + length := by
  have ht := typ.toNat_lt
  unfold toTL
  simp [UInt32.toNat_add, UInt32.toNat_shiftLeft, Nat.shiftLeft_eq]
  omega

/-- The head of a TLV has the top bit set. -/
theorem two_pow_le_toTL {typ : MsgType} {length : Nat} (ht : 2 ^ 15 ≤ typ.toNat)
    (hl : length < 2 ^ 16) : 2 ^ 31 ≤ (toTL typ length).toNat := by
  rw [toNat_toTL typ hl]
  omega

/-- `TLFrom` undoes `ToTL` on a type with the top bit and a 16-bit length. -/
theorem tlFrom_toTL {typ : MsgType} {length : Nat} (ht : 2 ^ 15 ≤ typ.toNat)
    (hl : length < 2 ^ 16) : tlFrom (toTL typ length) = (typ, length) := by
  have hval := toNat_toTL typ hl
  have htop := two_pow_le_toTL ht hl
  have hlt := typ.toNat_lt
  unfold tlFrom
  rw [if_neg (by rw [and_top_eq_zero]; omega), Prod.mk.injEq]
  constructor
  · rw [← UInt16.toNat_inj, UInt32.toNat_toUInt16, toNat_shiftRight16, hval]
    omega
  · rw [toNat_and16, hval]
    omega

/-- What `SendTLV` writes, read back as a condition on its arguments. -/
theorem sendTLV_eq_ok {typ : MsgType} {val bytes : List UInt8} :
    sendTLV typ val = .ok bytes ↔
      (typeOf typ = typeServerToClient ∨ typeOf typ = typeClientToServer) ∧
      val.length < 2 ^ 16 ∧ bytes = putUint32 (toTL typ val.length) ++ val := by
  unfold sendTLV
  split
  · rename_i h
    simp [h.1, h.2]
  · rename_i h
    split
    · rename_i hlen
      constructor
      · intro hb
        cases hb
      · intro hb
        have := hb.2.1
        omega
    · have : val.length < 2 ^ 16 := by omega
      simp only [Except.ok.injEq, this, true_and]
      constructor
      · intro hb
        exact ⟨by tauto, hb.symm⟩
      · intro hb
        exact hb.2.symm

/-! ### Messages of the server -/

/-- A TLV the server may send: `SendTLV` takes it, and it is of a server-to-client type. -/
structure Tlv where
  typ : MsgType
  val : List UInt8
  server : typeOf typ = typeServerToClient
  short : val.length < 2 ^ 16

/-- The bytes of a TLV on the wire. -/
def Tlv.bytes (t : Tlv) : List UInt8 := putUint32 (toTL t.typ t.val.length) ++ t.val

/-- They are what `SendTLV` writes. -/
theorem sendTLV_tlv (t : Tlv) : sendTLV t.typ t.val = .ok t.bytes :=
  sendTLV_eq_ok.mpr ⟨.inl t.server, t.short, rfl⟩

/-- The top bit of the type of a message is set. -/
theorem Tlv.two_pow_le (t : Tlv) : 2 ^ 15 ≤ t.typ.toNat :=
  two_pow_le_of_typeOf (by rw [t.server]; decide)

/-- The header of a message is read as it was written. -/
theorem Tlv.tlFrom_head (t : Tlv) : tlFrom (toTL t.typ t.val.length) = (t.typ, t.val.length) :=
  tlFrom_toTL t.two_pow_le t.short

/-- What `SendUint32` sends. -/
def Tlv.ofUint32 (typ : MsgType) (val : UInt32) (h : typeOf typ = typeServerToClient) : Tlv :=
  ⟨typ, putUint32 val, h, by rw [length_putUint32]; decide⟩

/-- What `SendType` sends. -/
def Tlv.ofType (typ : MsgType) (h : typeOf typ = typeServerToClient) : Tlv :=
  ⟨typ, [], h, by decide⟩

/-- A message of the server after the handshake. -/
inductive Msg where
  | block (i : UInt32)
  | tlv (t : Tlv)

/-- The bytes of a message on the wire. -/
def Msg.bytes : Msg → List UInt8
  | .block i => putUint32 i
  | .tlv t => t.bytes

/-- The block index a message carries. -/
def Msg.index : Msg → Option UInt32
  | .block i => some i
  | .tlv _ => none

/-- The bytes of a sequence of messages. -/
def encodeMsgs (msgs : List Msg) : List UInt8 := msgs.flatMap Msg.bytes

/-- The block indexes of a sequence of messages. -/
def indexes (msgs : List Msg) : List UInt32 := msgs.filterMap Msg.index

/-- The bytes of a sequence of block indexes. -/
def encodeIndexes (is : List UInt32) : List UInt8 := is.flatMap putUint32

/-- Indexes are written one after the other. -/
theorem encodeIndexes_append (is js : List UInt32) :
    encodeIndexes (is ++ js) = encodeIndexes is ++ encodeIndexes js := List.flatMap_append

/-- The bytes of the first message come first. -/
theorem encodeMsgs_cons (m : Msg) (msgs : List Msg) :
    encodeMsgs (m :: msgs) = m.bytes ++ encodeMsgs msgs := List.flatMap_cons

/-- A sequence of block indexes and nothing else. -/
theorem encodeMsgs_block (is : List UInt32) : encodeMsgs (is.map .block) = encodeIndexes is := by
  rw [encodeMsgs, List.flatMap_map]
  rfl

/-- A stream of nothing but indexes has these indexes. -/
theorem indexes_block (is : List UInt32) : indexes (is.map .block) = is := by
  rw [indexes, List.filterMap_map]
  exact List.filterMap_some

/-- Each index of a stream is one of its messages. -/
theorem block_mem_of_index {msgs : List Msg} {x : UInt32} (h : x ∈ indexes msgs) :
    Msg.block x ∈ msgs := by
  obtain ⟨m, hm, hmx⟩ := List.mem_filterMap.mp h
  cases m with
  | block y => exact Option.some.inj hmx ▸ hm
  | tlv u => cases hmx

/-- A message is at least a byte long. -/
theorem length_le_encodeMsgs (msgs : List Msg) : msgs.length ≤ (encodeMsgs msgs).length := by
  induction msgs with
  | nil => exact Nat.le_refl _
  | cons m msgs ih =>
      have hm : 0 < m.bytes.length := by
        cases m with
        | block i => simp [Msg.bytes]
        | tlv t =>
            rw [Msg.bytes, Tlv.bytes, List.length_append, length_putUint32]
            omega
      rw [encodeMsgs_cons, List.length_append, List.length_cons]
      omega

end Testimony.Wire
