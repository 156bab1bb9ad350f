import Testimony.Client.Recv

/-!
# `Testimony.Proofs.Client.Recv`: the read-ahead buffer is transparent

Reading `n` bytes takes the first `n` of what is pending, in the buffer or in the kernel and
however it is cut (`reads_recvT`, `reads_recvBe32`, `reads_discardBytes`). When there are
fewer, the call stops the way the stream ends (`halts_recvT` and the others).
-/

set_option autoImplicit false

namespace Testimony.Client

open Lib Lib.BigEndian Source

/-- What is still to be read is the buffer and then the socket. -/
theorem pending_sock (t : Sock) : pending t = t.buf ++ Seg.pending t.segs := rfl

/-- With something pending, `refill` moves some of it into the empty buffer. -/
theorem refill_ok {t : Sock} (hbuf : t.buf = []) (h : pending t ≠ []) :
    ∃ t', refill t = .ok () t' ∧ t'.buf ≠ [] ∧ pending t' = pending t ∧ ending t' = ending t := by
  rw [pending_sock, hbuf, List.nil_append] at h
  obtain ⟨bytes, segs, hfetch, hne, -, hpending, hending⟩ :=
    Seg.fetch_got (show 0 < bufSize by decide) h
  refine ⟨⟨bytes, segs⟩, ?_, hne, ?_, hending⟩
  · rw [refill, hfetch]
  · rw [pending_sock, pending_sock, hbuf, hpending, List.nil_append]

/-- With nothing pending it meets the end of the stream. -/
theorem refill_stop {t : Sock} (h : pending t = []) :
    refill t = .error (.ofEnd (ending t)) t := by
  obtain ⟨hbuf, hsegs⟩ : t.buf = [] ∧ Seg.pending t.segs = [] := List.append_eq_nil_iff.mp h
  obtain ⟨buf, segs⟩ := t
  obtain rfl : buf = [] := hbuf
  rw [refill, Seg.fetch_stop bufSize hsegs]
  rfl

/-! ### `recv_t` -/

/-- A round of `recv_t` that finds the buffer empty fills it first. -/
theorem recvLoop_refill {t t' : Sock} {rounds s : Nat} {out : List UInt8} (hs : s ≠ 0)
    (hbuf : t.buf = []) (hbuf' : t'.buf ≠ []) (h : refill t = .ok () t') :
    recvLoop (rounds + 1) s out t = recvLoop (rounds + 1) s out t' := by
  simp only [recvLoop, hs, if_false, bind, EStateM.bind, get_apply, hbuf, hbuf',
    if_true, h, pure]

/-- A read that needs more than the buffer has stops where `refill` stops. -/
theorem recvLoop_stop {t t' : Sock} {rounds s : Nat} {out : List UInt8} {e : RecvStop}
    (hs : s ≠ 0) (hbuf : t.buf = []) (h : refill t = .error e t') :
    recvLoop (rounds + 1) s out t = .error e t' := by
  simp only [recvLoop, hs, if_false, bind, EStateM.bind, get_apply, hbuf, if_true, h,
    pure]

/-- A round that finds bytes in the buffer copies them. -/
theorem recvLoop_copy {t : Sock} {rounds s : Nat} {out : List UInt8} (hs : s ≠ 0)
    (hbuf : t.buf ≠ []) :
    recvLoop (rounds + 1) s out t =
      recvLoop rounds (s - min s t.buf.length) (out ++ t.buf.take (min s t.buf.length))
        { t with buf := t.buf.drop (min s t.buf.length) } := by
  simp only [recvLoop, hs, if_false, bind, EStateM.bind, get_apply, set_apply, hbuf,
    pure]

/-- With something pending, a round can be taken to begin with a filled buffer. -/
theorem recvLoop_filled {t : Sock} {s : Nat} (hs : s ≠ 0) (h : pending t ≠ []) (rounds : Nat)
    (out : List UInt8) : ∃ t₁ : Sock, t₁.buf ≠ [] ∧ pending t₁ = pending t ∧
      ending t₁ = ending t ∧
      recvLoop (rounds + 1) s out t = recvLoop (rounds + 1) s out t₁ := by
  by_cases hbuf : t.buf = []
  · obtain ⟨t₁, hrefill, hbuf₁, hpending, hending⟩ := refill_ok hbuf h
    exact ⟨t₁, hbuf₁, hpending, hending, recvLoop_refill hs hbuf hbuf₁ hrefill⟩
  · exact ⟨t, hbuf, rfl, rfl, rfl⟩

/-- The loop reads what is wanted when it is there. -/
theorem recvLoop_ok (rounds : Nat) : ∀ (want rest out : List UInt8) (t : Sock),
    want.length ≤ rounds → pending t = want ++ rest →
    ∃ t', recvLoop rounds want.length out t = .ok (out ++ want) t' ∧ pending t' = rest ∧
      ending t' = ending t := by
  induction rounds with
  | zero =>
      intro want rest out t hlen h
      have hnil : want = [] := List.eq_nil_of_length_eq_zero (Nat.le_zero.mp hlen)
      subst hnil
      exact ⟨t, by simp [recvLoop, pure, EStateM.pure], h, rfl⟩
  | succ rounds ih =>
      intro want rest out t hlen h
      by_cases hwant : want = []
      · subst hwant
        exact ⟨t, by simp [recvLoop, pure, EStateM.pure], h, rfl⟩
      have hs : want.length ≠ 0 := by simpa using hwant
      obtain ⟨t₁, hbuf, hpending, hending, heq⟩ :=
        recvLoop_filled hs (show pending t ≠ [] by simp [h, hwant]) rounds out
      rw [heq, recvLoop_copy hs hbuf]
      -- The copied bytes are the first of those wanted.
      have hcopy : 0 < min want.length t₁.buf.length :=
        Nat.lt_min.mpr ⟨Nat.pos_of_ne_zero hs, List.length_pos_iff.mpr hbuf⟩
      generalize hc : min want.length t₁.buf.length = c at hcopy
      have hc₁ : c ≤ want.length := hc ▸ Nat.min_le_left _ _
      have hc₂ : c ≤ t₁.buf.length := hc ▸ Nat.min_le_right _ _
      have hall : t₁.buf ++ Seg.pending t₁.segs = want ++ rest := by
        rw [← pending_sock, hpending, h]
      have htake : t₁.buf.take c = want.take c := by
        have := congrArg (List.take c) hall
        rwa [List.take_append_of_le_length hc₂, List.take_append_of_le_length hc₁] at this
      have hdrop : t₁.buf.drop c ++ Seg.pending t₁.segs = want.drop c ++ rest := by
        have := congrArg (List.drop c) hall
        rwa [List.drop_append_of_le_length hc₂, List.drop_append_of_le_length hc₁] at this
      obtain ⟨t₂, hrun, hpending₂, hending₂⟩ := ih (want.drop c) rest (out ++ want.take c)
        { t₁ with buf := t₁.buf.drop c } (by rw [List.length_drop]; omega) hdrop
      refine ⟨t₂, ?_, hpending₂, hending₂.trans hending⟩
      rw [htake, ← List.length_drop, hrun, List.append_assoc, List.take_append_drop]

/-- The loop stops when there is too little to read. -/
theorem recvLoop_short (rounds : Nat) : ∀ (s : Nat) (out : List UInt8) (t : Sock),
    s ≤ rounds → (pending t).length < s →
    ∃ t', recvLoop rounds s out t = .error (.ofEnd (ending t)) t' ∧ pending t' = [] ∧
      ending t' = ending t := by
  induction rounds with
  | zero => intro s out t hs h; omega
  | succ rounds ih =>
      intro s out t hs h
      have hne : s ≠ 0 := by omega
      by_cases hnone : pending t = []
      · have hbuf : t.buf = [] := (List.append_eq_nil_iff.mp hnone).1
        exact ⟨t, recvLoop_stop hne hbuf (refill_stop hnone), hnone, rfl⟩
      obtain ⟨t₁, hbuf, hpending, hending, heq⟩ := recvLoop_filled hne hnone rounds out
      have hlen : t₁.buf.length + (Seg.pending t₁.segs).length < s := by
        rw [← hpending, pending_sock, List.length_append] at h
        exact h
      have hpos : 0 < t₁.buf.length := List.length_pos_iff.mpr hbuf
      rw [heq, recvLoop_copy hne hbuf, ← hending]
      refine ih _ _ { t₁ with buf := t₁.buf.drop (min s t₁.buf.length) } (by omega) ?_
      simp only [pending_sock, List.length_append, List.length_drop]
      omega

/-- A read that stops the way the stream ends. -/
theorem halts_of_ofEnd {α : Type} {f : Read α} {bytes : List UInt8}
    (h : ∀ t, pending t = bytes → ∃ t', f t = .error (.ofEnd (ending t)) t' ∧
      pending t' = [] ∧ ending t' = ending t) : Halts RecvStop.blocked f bytes := by
  intro t ht
  obtain ⟨t', hf, hrest⟩ := h t ht
  exact ⟨_, t', hf, fun hb => by rw [hb]; rfl, hrest⟩

/-- `recv_t` reads exactly as many bytes as are wanted. -/
theorem reads_recvT (want : List UInt8) : Reads (recvT want.length) want want :=
  fun t rest h => recvLoop_ok want.length want rest [] t (Nat.le_refl _) h

/-- A read of more bytes than there are waits. -/
theorem halts_recvT {bytes : List UInt8} {s : Nat} (h : bytes.length < s) :
    Halts RecvStop.blocked (recvT s) bytes :=
  halts_of_ofEnd fun t ht => recvLoop_short s s [] t (Nat.le_refl _) (by rw [ht]; exact h)

/-! ### Words and values -/

/-- Four bytes are a word. -/
theorem reads_recvBe32_of_length {bytes : List UInt8} (h : bytes.length = 4) :
    Reads recvBe32 bytes (uint32 bytes) :=
  (h ▸ reads_recvT bytes : Reads (recvT 4) bytes bytes).bind_pure (by rw [foldl_shift])

/-- A 32-bit number is read as it was written. -/
theorem reads_recvBe32 (x : UInt32) : Reads recvBe32 (putUint32 x) x := by
  have := reads_recvBe32_of_length (length_putUint32 x)
  rwa [uint32_putUint32] at this

/-- Fewer than four bytes are no number yet. -/
theorem halts_recvBe32 {bytes : List UInt8} (h : bytes.length < 4) :
    Halts RecvStop.blocked recvBe32 bytes :=
  (halts_recvT h).bind

/-- One round of the loop reads as much as fits in the buffer. -/
theorem discardLoop_succ {n : Nat} (hn : n ≠ 0) (rounds : Nat) :
    discardLoop (rounds + 1) n =
      (recvT (min n bufSize) >>= fun _ => discardLoop rounds (n - min n bufSize)) := by
  have hlen : (if n > bufSize then bufSize else n) = min n bufSize := by
    split <;> omega
  simp only [discardLoop, hn, if_false, hlen]

/-- `discard_bytes` skips a value, in pieces of the size of its local buffer. -/
theorem reads_discardLoop (rounds : Nat) : ∀ val : List UInt8, val.length ≤ rounds →
    Reads (discardLoop rounds val.length) val () := by
  induction rounds with
  | zero =>
      intro val hlen
      have hnil : val = [] := List.eq_nil_of_length_eq_zero (Nat.le_zero.mp hlen)
      subst hnil
      exact Reads.pure ()
  | succ rounds ih =>
      intro val hlen
      by_cases hval : val = []
      · subst hval
        exact Reads.pure ()
      have hne : val.length ≠ 0 := by simpa using hval
      rw [discardLoop_succ hne]
      generalize hc : min val.length bufSize = c
      have hpos : 0 < c := hc ▸ Nat.lt_min.mpr ⟨Nat.pos_of_ne_zero hne, by decide⟩
      have hle : c ≤ val.length := hc ▸ Nat.min_le_left _ _
      have hpiece := reads_recvT (val.take c)
      have hrest := ih (val.drop c) (by rw [List.length_drop]; omega)
      rw [List.length_take_of_le hle] at hpiece
      rw [List.length_drop] at hrest
      have := hpiece.bind (g := fun _ => discardLoop rounds (val.length - c)) hrest
      rwa [List.take_append_drop] at this

/-- It stops when the value is incomplete. -/
theorem halts_discardLoop (rounds : Nat) : ∀ (bytes : List UInt8) (n : Nat), n ≤ rounds →
    bytes.length < n → Halts RecvStop.blocked (discardLoop rounds n) bytes := by
  induction rounds with
  | zero => intro bytes n hn h; omega
  | succ rounds ih =>
      intro bytes n hn h
      have hne : n ≠ 0 := by omega
      rw [discardLoop_succ hne]
      generalize hc : min n bufSize = c
      have hpos : 0 < c := hc ▸ Nat.lt_min.mpr ⟨Nat.pos_of_ne_zero hne, by decide⟩
      by_cases hshort : bytes.length < c
      · exact (halts_recvT hshort).bind
      · have hle : c ≤ bytes.length := Nat.not_lt.mp hshort
        have hpiece := reads_recvT (bytes.take c)
        rw [List.length_take_of_le hle] at hpiece
        have hrest := ih (bytes.drop c) (n - c) (by omega) (by
          rw [List.length_drop]
          omega)
        have := hpiece.bind_halts (g := fun _ => discardLoop rounds (n - c)) hrest
        rwa [List.take_append_drop] at this

/-- Exactly the bytes asked for are dropped. -/
theorem reads_discardBytes (val : List UInt8) : Reads (discardBytes val.length) val () :=
  reads_discardLoop val.length val (Nat.le_refl _)

/-- To drop more bytes than there are, the client waits. -/
theorem halts_discardBytes {bytes : List UInt8} {n : Nat} (h : bytes.length < n) :
    Halts RecvStop.blocked (discardBytes n) bytes :=
  halts_discardLoop n bytes n (Nat.le_refl _) h

/-! ### Heads -/

/-- A word without the top bit is a block index. -/
theorem protocolType_of_lt {x : UInt32} (h : x.toNat < 2 ^ 31) :
    protocolType x = Wire.typeBlockIndex.toUInt32 := by
  rw [protocolType, if_pos ((and_top_eq_zero x).mpr h)]

/-- The head of a TLV splits into its type and its length. -/
theorem protocolType_toTL {typ : Wire.MsgType} {length : Nat} (ht : 2 ^ 15 ≤ typ.toNat)
    (hl : length < 2 ^ 16) : protocolType (Wire.toTL typ length) = typ.toUInt32 := by
  have htop := Wire.two_pow_le_toTL ht hl
  rw [protocolType, if_neg (by rw [and_top_eq_zero]; omega), ← UInt32.toNat_inj,
    toNat_shiftRight16, Wire.toNat_toTL typ hl, UInt16.toNat_toUInt32]
  omega

/-- The length of a message is read from its header as it was written. -/
theorem toNat_protocolLength_toTL {typ : Wire.MsgType} {length : Nat} (ht : 2 ^ 15 ≤ typ.toNat)
    (hl : length < 2 ^ 16) : (protocolLength (Wire.toTL typ length)).toNat = length := by
  have htop := Wire.two_pow_le_toTL ht hl
  rw [protocolLength, if_neg (by rw [and_top_eq_zero]; omega), toNat_and16,
    Wire.toNat_toTL typ hl]
  omega

/-! ### Error messages -/

/-- A read with a message for its failure takes the same bytes. -/
theorem reads_terr {M α : Type} (msg : M) {f : Read α} {bytes : List UInt8} {a : α}
    (h : Reads f bytes a) : Reads (terr msg f) bytes a := by
  intro t rest ht
  obtain ⟨t', hf, hpending, hending⟩ := h t rest ht
  exact ⟨t', by rw [terr, hf], hpending, hending⟩

/-- A reader that waits still waits when its errors get a message. -/
theorem halts_terr {M α : Type} (msg : M) {f : Read α} {bytes : List UInt8}
    (h : Halts .blocked f bytes) : Halts .blocked (terr msg f) bytes := by
  intro t ht
  obtain ⟨e, t', hf, he, hrest⟩ := h t ht
  cases e with
  | errno e => exact ⟨.fail e msg, t', by rw [terr, hf], fun hb => (nomatch he hb), hrest⟩
  | blocked => exact ⟨.blocked, t', by rw [terr, hf], fun _ => rfl, hrest⟩

/-- It fails with that message. -/
theorem eq_of_terr_fail {M α : Type} {msg msg' : M} {f : Read α} {t t' : Sock} {e : Errno}
    (h : terr msg f t = .error (.fail e msg') t') : msg' = msg := by
  unfold terr at h
  split at h <;> cases h
  rfl

/-! ### More to read -/

/-- What arrives is read behind what is there, unless the stream has ended before. -/
theorem Sock.pending_push (t : Sock) (segs : List Seg) : pending (t.push segs) =
    if ending t = .blocked then pending t ++ Seg.pending segs else pending t := by
  show t.buf ++ Seg.pending (t.segs ++ segs) =
    if Seg.ending t.segs = .blocked then t.buf ++ Seg.pending t.segs ++ Seg.pending segs
    else t.buf ++ Seg.pending t.segs
  rw [Seg.pending_append]
  split
  · rw [List.append_assoc]
  · rfl

/-- What arrives decides how the stream ends, unless it has ended before. -/
theorem Sock.ending_push (t : Sock) (segs : List Seg) :
    ending (t.push segs) = if ending t = .blocked then Seg.ending segs else ending t :=
  Seg.ending_append t.segs segs

end Testimony.Client
