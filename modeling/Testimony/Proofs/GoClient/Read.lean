import Testimony.GoClient.Conn

/-!
# `Testimony.Proofs.GoClient.Read`: `io.ReadFull` on a cut stream

`readFull n` takes the next `n` bytes, however the stream is cut (`reads_readFull`), and stops
when there are fewer (`halts_readFull`).
-/

set_option autoImplicit false

namespace Testimony.GoClient

open Lib Lib.BigEndian Source

/-- One round of the loop takes what a `Read` gives. -/
theorem readLoop_got {rounds n : Nat} {out bytes : List UInt8} {segs rest : List Seg}
    (hn : n ≠ 0) (h : Seg.fetch n segs = .got bytes rest) :
    readLoop (rounds + 1) n out segs =
      readLoop rounds (n - bytes.length) (out ++ bytes) rest := by
  simp only [readLoop, hn, if_false, h]

/-- The loop reads what is wanted when it is there. -/
theorem readLoop_ok (rounds : Nat) : ∀ (want rest out : List UInt8) (segs : List Seg),
    want.length ≤ rounds → pending segs = want ++ rest →
    ∃ segs', readLoop rounds want.length out segs = .ok (out ++ want) segs' ∧
      pending segs' = rest ∧ ending segs' = ending segs := by
  induction rounds with
  | zero =>
      intro want rest out segs hlen h
      have hnil : want = [] := List.eq_nil_of_length_eq_zero (Nat.le_zero.mp hlen)
      subst hnil
      exact ⟨segs, by simp [readLoop, pure, EStateM.pure], h, rfl⟩
  | succ rounds ih =>
      intro want rest out segs hlen h
      by_cases hwant : want = []
      · subst hwant
        exact ⟨segs, by simp [readLoop], h, rfl⟩
      have hn : want.length ≠ 0 := by simpa using hwant
      obtain ⟨bytes, segs₁, hfetch, hne, hle, hpending, hending⟩ :=
        Seg.fetch_got (Nat.pos_of_ne_zero hn) (show Seg.pending segs ≠ [] by
          change pending segs ≠ []
          simp [h, hwant])
      -- `Read` never returns more than it is asked for, so what it returns is wanted.
      obtain ⟨want', rfl⟩ : bytes <+: want :=
        List.prefix_of_prefix_length_le ⟨_, hpending.symm⟩ ⟨_, h.symm⟩ hle
      have hlen' := List.length_pos_iff.mpr hne
      rw [List.length_append] at hlen
      have hpending₁ : pending segs₁ = want' ++ rest := by
        rw [List.append_assoc] at h
        exact List.append_cancel_left (hpending.symm.trans h)
      obtain ⟨segs₂, hrun, hpending₂, hending₂⟩ :=
        ih want' rest (out ++ bytes) segs₁ (by omega) hpending₁
      refine ⟨segs₂, ?_, hpending₂, hending₂.trans hending⟩
      rw [readLoop_got hn hfetch, List.length_append, Nat.add_sub_cancel_left, hrun,
        List.append_assoc]

/-- The loop stops when there is too little to read. -/
theorem readLoop_short (rounds : Nat) : ∀ (n : Nat) (out : List UInt8) (segs : List Seg),
    n ≤ rounds → (pending segs).length < n →
    ∃ e segs', readLoop rounds n out segs = .error e segs' ∧
      (e = .blocked ↔ ending segs = .blocked) ∧ pending segs' = [] ∧
      ending segs' = ending segs := by
  induction rounds with
  | zero => intro n out segs hn h; omega
  | succ rounds ih =>
      intro n out segs hn h
      have hne : n ≠ 0 := by omega
      by_cases hnone : Seg.pending segs = []
      · have hfetch := Seg.fetch_stop n hnone
        change Seg.fetch n segs = .stop (ending segs) at hfetch
        have hnone' : pending segs = [] := hnone
        simp only [readLoop, hne, if_false, hfetch]
        cases hending : ending segs <;> simp [hnone', hending]
      obtain ⟨bytes, segs₁, hfetch, hbytes, -, hpending, hending⟩ :=
        Seg.fetch_got (Nat.pos_of_ne_zero hne) hnone
      have hlen := List.length_pos_iff.mpr hbytes
      have hshort : bytes.length + (pending segs₁).length < n := by
        change (Seg.pending segs).length < n at h
        rw [hpending, List.length_append] at h
        exact h
      obtain ⟨e, segs', hrun, he, hpending', hending'⟩ :=
        ih (n - bytes.length) (out ++ bytes) segs₁ (by omega) (by omega)
      rw [show ending segs₁ = ending segs from hending] at he
      exact ⟨e, segs', by rw [readLoop_got hne hfetch, hrun], he, hpending', hending'.trans hending⟩

/-- `io.ReadFull` reads exactly as many bytes as are wanted. -/
theorem reads_readFull (want : List UInt8) : Reads (readFull want.length) want want :=
  fun segs rest h => readLoop_ok want.length want rest [] segs (Nat.le_refl _) h

/-- A read of more bytes than there are waits. -/
theorem halts_readFull {bytes : List UInt8} {n : Nat} (h : bytes.length < n) :
    Halts .blocked (readFull n) bytes := by
  intro segs hs
  obtain ⟨e, segs', hrun, he, hrest⟩ :=
    readLoop_short n n [] segs (Nat.le_refl _) (by rw [hs]; exact h)
  exact ⟨e, segs', hrun, he.mpr, hrest⟩

/-- `io.ReadFull` returns the next bytes if there are enough of them, and an error otherwise. It
waits if the stream does not end. -/
theorem readFull_cases (n : Nat) (segs : List Seg) :
    (∃ segs', readFull n segs = .ok ((pending segs).take n) segs' ∧ n ≤ (pending segs).length) ∨
    ∃ e segs', readFull n segs = .error e segs' ∧ (pending segs).length < n ∧
      (e = .blocked ↔ ending segs = .blocked) := by
  by_cases h : n ≤ (pending segs).length
  · have hlen : ((pending segs).take n).length = n := List.length_take_of_le h
    obtain ⟨segs', hrun, -⟩ := reads_readFull ((pending segs).take n) segs ((pending segs).drop n)
      (List.take_append_drop n _).symm
    rw [hlen] at hrun
    exact .inl ⟨segs', hrun, h⟩
  · have hlt := Nat.lt_of_not_le h
    obtain ⟨e, segs', hrun, he, -⟩ := readLoop_short n n [] segs (Nat.le_refl _) hlt
    exact .inr ⟨e, segs', hrun, hlt, he⟩

/-- A wrapped read takes the same bytes. -/
theorem reads_wrap {M α : Type} (msg : ReadError → M)
    {f : EStateM (Stop ReadError) (List Seg) α} {bytes : List UInt8} {a : α}
    (h : Reads f bytes a) : Reads (wrap msg f) bytes a := by
  intro segs rest hs
  obtain ⟨segs', hf, hpending, hending⟩ := h segs rest hs
  exact ⟨segs', by rw [wrap, hf], hpending, hending⟩

/-- A reader that waits still waits when its errors get a message. -/
theorem halts_wrap {M α : Type} (msg : ReadError → M)
    {f : EStateM (Stop ReadError) (List Seg) α} {bytes : List UInt8}
    (h : Halts .blocked f bytes) : Halts .blocked (wrap msg f) bytes := by
  intro segs hs
  obtain ⟨e, segs', hf, he, hrest⟩ := h segs hs
  cases e with
  | fail e => exact ⟨.fail (msg e), segs', by rw [wrap, hf], fun hb => (nomatch he hb), hrest⟩
  | blocked => exact ⟨.blocked, segs', by rw [wrap, hf], fun _ => rfl, hrest⟩

end Testimony.GoClient
