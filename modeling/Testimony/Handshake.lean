import Testimony.Lib.Reader
import Testimony.Wire

/-!
# `Testimony.Handshake`: what a greeting says

The server opens a connection with a version byte and a sequence of TLVs that ends, for the
client, at the first `WaitingForFanoutIndex`. This file says what such a greeting means without
saying how to read it: `Negotiates v ts p rest` holds when version `v` and the TLVs `ts` settle
on the parameters `p` and leave `rest` unread.

A parser works from the front and keeps the values it has seen. `Params.note` is one step of
it, and `note_foldl` says that running through a list leaves the last value of each
parameter.

`Parses f result` says that the program `f` reads greetings as `Negotiates` means them.
`parses_of` reduces it to what a parser does in the three situations it can meet.
-/

set_option autoImplicit false

namespace Testimony.Handshake

open Lib Lib.BigEndian Wire

/-- The parameters a greeting settles. -/
@[ext]
structure Params where
  fanoutSize : UInt32
  blockSize : UInt32
  numBlocks : UInt32
  deriving DecidableEq

/-- A TLV with a value of the size its type calls for. Types that neither side knows may carry
anything. -/
structure Conforms (t : Tlv) : Prop where
  fanoutSize : t.typ = typeFanoutSize → t.val.length = 4
  blockSize : t.typ = typeBlockSize → t.val.length = 4
  numBlocks : t.typ = typeNumBlocks → t.val.length = 4
  waiting : t.typ = typeWaitingForFanoutIndex → t.val = []

/-- The four conditions are decided one by one. -/
instance (t : Tlv) : Decidable (Conforms t) :=
  decidable_of_iff
    ((t.typ = typeFanoutSize → t.val.length = 4) ∧ (t.typ = typeBlockSize → t.val.length = 4) ∧
      (t.typ = typeNumBlocks → t.val.length = 4) ∧
      (t.typ = typeWaitingForFanoutIndex → t.val = []))
    ⟨fun ⟨h₁, h₂, h₃, h₄⟩ => ⟨h₁, h₂, h₃, h₄⟩, fun ⟨h₁, h₂, h₃, h₄⟩ => ⟨h₁, h₂, h₃, h₄⟩⟩

/-- The bytes of a sequence of TLVs. -/
def stream (ts : List Tlv) : List UInt8 := ts.flatMap Tlv.bytes

/-- The last value of a type in a sequence. -/
def lastValue (typ : MsgType) (ts : List Tlv) : Option UInt32 :=
  ((ts.filter fun t => t.typ = typ).getLast?).map fun t => uint32 t.val

/-- A greeting that settles on `p`, with `rest` behind the `WaitingForFanoutIndex`. -/
structure Negotiates (version : UInt8) (ts : List Tlv) (p : Params) (rest : List Tlv) : Prop where
  version_eq : version = 2
  reached : ∃ before w, ts = before ++ w :: rest ∧ w.typ = typeWaitingForFanoutIndex ∧
    (∀ t ∈ before, t.typ ≠ typeWaitingForFanoutIndex) ∧
    lastValue typeFanoutSize before = some p.fanoutSize ∧
    lastValue typeBlockSize before = some p.blockSize ∧
    lastValue typeNumBlocks before = some p.numBlocks
  fanoutSize_ne : p.fanoutSize ≠ 0
  blockSize_ne : p.blockSize ≠ 0
  numBlocks_ne : p.numBlocks ≠ 0

/-! ### One TLV after the other -/

/-- Take note of a TLV. -/
def Params.note (p : Params) (t : Tlv) : Params :=
  if t.typ = typeFanoutSize then { p with fanoutSize := uint32 t.val }
  else if t.typ = typeBlockSize then { p with blockSize := uint32 t.val }
  else if t.typ = typeNumBlocks then { p with numBlocks := uint32 t.val }
  else p

/-- The bytes of the first message come first. -/
theorem stream_cons (t : Tlv) (ts : List Tlv) : stream (t :: ts) = t.bytes ++ stream ts :=
  List.flatMap_cons

/-- Messages are written one after the other. -/
theorem stream_append (ts us : List Tlv) : stream (ts ++ us) = stream ts ++ stream us :=
  List.flatMap_append

/-- A TLV is at least a byte long. -/
theorem length_le_stream (ts : List Tlv) : ts.length ≤ (stream ts).length := by
  induction ts with
  | nil => exact Nat.le_refl _
  | cons t ts ih =>
      rw [stream_cons, List.length_append, Tlv.bytes, List.length_append, length_putUint32,
        List.length_cons]
      omega

/-- A sequence cut anywhere is whole, or it breaks off inside one of its TLVs. -/
theorem stream_cut {us : List Tlv} : ∀ {bytes : List UInt8}, bytes <+: stream us →
    bytes = stream us ∨ ∃ ts u part, ts ++ [u] <+: us ∧ bytes = stream ts ++ part ∧
      part <+: u.bytes ∧ part.length < u.bytes.length := by
  induction us with
  | nil => exact fun h => .inl (List.prefix_nil.mp h)
  | cons u us ih =>
      intro bytes h
      rw [stream_cons] at h ⊢
      by_cases hlen : bytes.length < u.bytes.length
      · refine .inr ⟨[], u, bytes, ⟨us, rfl⟩, rfl, ?_, hlen⟩
        exact List.prefix_of_prefix_length_le h (List.prefix_append _ _) (Nat.le_of_lt hlen)
      · obtain ⟨rest, rfl⟩ : u.bytes <+: bytes :=
          List.prefix_of_prefix_length_le (List.prefix_append _ _) h (Nat.not_lt.mp hlen)
        rcases ih ((List.prefix_append_right_inj _).mp h) with rfl | ⟨ts, v, part, hts, rfl, hpart⟩
        · exact .inl rfl
        · refine .inr ⟨u :: ts, v, part, ?_, ?_, hpart⟩
          · exact List.cons_prefix_cons.mpr ⟨rfl, hts⟩
          · rw [stream_cons, List.append_assoc]

/-- A further message counts if it has the type, and changes nothing otherwise. -/
theorem lastValue_append_singleton (typ : MsgType) (ts : List Tlv) (t : Tlv) :
    lastValue typ (ts ++ [t]) = if t.typ = typ then some (uint32 t.val) else lastValue typ ts := by
  unfold lastValue
  by_cases h : t.typ = typ <;> simp [List.filter_append, h]

/-- Noting a list leaves the last value of each parameter, or the old one if there is none. -/
theorem note_foldl (p : Params) (ts : List Tlv) : ts.foldl Params.note p =
    ⟨(lastValue typeFanoutSize ts).getD p.fanoutSize,
      (lastValue typeBlockSize ts).getD p.blockSize,
      (lastValue typeNumBlocks ts).getD p.numBlocks⟩ := by
  induction ts using List.reverseRecOn with
  | nil => rfl
  | append_singleton ts t ih =>
      rw [List.foldl_append, ih]
      simp only [List.foldl_cons, List.foldl_nil, Params.note, lastValue_append_singleton]
      -- The three types differ, so a TLV changes one parameter at most.
      by_cases h₁ : t.typ = typeFanoutSize
      · simp [h₁, show typeFanoutSize ≠ typeBlockSize by decide,
          show typeFanoutSize ≠ typeNumBlocks by decide]
      · by_cases h₂ : t.typ = typeBlockSize
        · simp [h₂, show typeBlockSize ≠ typeFanoutSize by decide,
            show typeBlockSize ≠ typeNumBlocks by decide]
        · by_cases h₃ : t.typ = typeNumBlocks
          · simp [h₃, show typeNumBlocks ≠ typeFanoutSize by decide,
              show typeNumBlocks ≠ typeBlockSize by decide]
          · simp [h₁, h₂, h₃]

/-- No parameter known yet. -/
def Params.none : Params := ⟨0, 0, 0⟩

/-- All parameters are known, and none is zero. -/
def Params.Complete (p : Params) : Prop :=
  p.fanoutSize ≠ 0 ∧ p.blockSize ≠ 0 ∧ p.numBlocks ≠ 0

/-- Cut a sequence at the first `WaitingForFanoutIndex`. -/
theorem exists_waiting (ts : List Tlv) :
    (∀ t ∈ ts, t.typ ≠ typeWaitingForFanoutIndex) ∨
    ∃ before w rest, ts = before ++ w :: rest ∧ w.typ = typeWaitingForFanoutIndex ∧
      ∀ t ∈ before, t.typ ≠ typeWaitingForFanoutIndex := by
  induction ts with
  | nil => exact .inl (by simp)
  | cons t ts ih =>
      by_cases ht : t.typ = typeWaitingForFanoutIndex
      · exact .inr ⟨[], t, ts, rfl, ht, by simp⟩
      · rcases ih with hnone | ⟨before, w, rest, rfl, hw, hbefore⟩
        · exact .inl (by simpa [ht] using hnone)
        · exact .inr ⟨t :: before, w, rest, rfl, hw, by simpa [ht] using hbefore⟩

/-- The cut is unique. -/
theorem waiting_unique {before before' rest rest' : List Tlv} {w w' : Tlv}
    (h : before ++ w :: rest = before' ++ w' :: rest')
    (hw : w.typ = typeWaitingForFanoutIndex) (hw' : w'.typ = typeWaitingForFanoutIndex)
    (hb : ∀ t ∈ before, t.typ ≠ typeWaitingForFanoutIndex)
    (hb' : ∀ t ∈ before', t.typ ≠ typeWaitingForFanoutIndex) :
    before = before' ∧ rest = rest' := by
  induction before generalizing before' with
  | nil =>
      cases before' with
      | nil => exact ⟨rfl, (List.cons.inj h).2⟩
      | cons t before' => exact absurd ((List.cons.inj h).1 ▸ hw) (hb' t (by simp))
  | cons t before ih =>
      cases before' with
      | nil => exact absurd ((List.cons.inj h).1.symm ▸ hw') (hb t (by simp))
      | cons t' before' =>
          obtain ⟨rfl, htail⟩ := List.cons.inj h
          obtain ⟨rfl, hrest⟩ := ih htail (fun u hu => hb u (by simp [hu]))
            (fun u hu => hb' u (by simp [hu]))
          exact ⟨rfl, hrest⟩

/-- What a parser has noted at the first `WaitingForFanoutIndex` decides the negotiation. -/
theorem negotiates_iff {before rest : List Tlv} {w : Tlv} (hw : w.typ = typeWaitingForFanoutIndex)
    (hb : ∀ t ∈ before, t.typ ≠ typeWaitingForFanoutIndex) (p : Params) (rest' : List Tlv) :
    Negotiates 2 (before ++ w :: rest) p rest' ↔
      p = before.foldl Params.note .none ∧ p.Complete ∧ rest' = rest := by
  constructor
  · rintro ⟨-, ⟨before', w', heq, hw', hb', h₁, h₂, h₃⟩, hf, hs, hn⟩
    obtain ⟨rfl, rfl⟩ := waiting_unique heq hw hw' hb hb'
    refine ⟨?_, ⟨hf, hs, hn⟩, rfl⟩
    rw [note_foldl, h₁, h₂, h₃]
    rfl
  · rintro ⟨hp, ⟨hf, hs, hn⟩, rfl⟩
    rw [note_foldl] at hp
    -- A value that is not zero is not the default.
    have known : ∀ (o : Option UInt32) (x : UInt32), x = o.getD 0 → x ≠ 0 → o = some x := by
      intro o x hx hne
      cases o with
      | none => exact absurd hx hne
      | some y => rw [hx]; rfl
    exact ⟨rfl, ⟨before, w, rfl, hw, hb, known _ _ (congrArg Params.fanoutSize hp) hf,
      known _ _ (congrArg Params.blockSize hp) hs,
      known _ _ (congrArg Params.numBlocks hp) hn⟩, hf, hs, hn⟩

/-- A negotiation that has come to its end has seen the message that ends it. -/
theorem Negotiates.waiting {version : UInt8} {ts rest : List Tlv} {p : Params}
    (h : Negotiates version ts p rest) : ∃ t ∈ ts, t.typ = typeWaitingForFanoutIndex := by
  obtain ⟨before, w, rfl, hw, -⟩ := h.reached
  exact ⟨w, by simp, hw⟩

/-! ### Parsers -/

section
variable {ε σ α : Type} [Source σ]

/-- A parser's loop, as a function of the rounds it has left and what it has noted, takes note
of every TLV but `WaitingForFanoutIndex`. -/
def Notes (loop : Nat → Params → EStateM ε σ α) : Prop :=
  ∀ t : Tlv, Conforms t → t.typ ≠ typeWaitingForFanoutIndex → ∀ (rounds : Nat) (p : Params),
    Steps (loop (rounds + 1) p) t.bytes (loop rounds (p.note t))

variable {loop : Nat → Params → EStateM ε σ α} {ts : List Tlv}

/-- Over messages that do not end the negotiation, the loop goes on with the parameters that they
set. -/
theorem Notes.steps (h : Notes loop) (hconf : ∀ t ∈ ts, Conforms t)
    (hne : ∀ t ∈ ts, t.typ ≠ typeWaitingForFanoutIndex) (rounds : Nat) (p : Params) :
    Steps (loop (ts.length + rounds) p) (stream ts) (loop rounds (ts.foldl Params.note p)) := by
  induction ts generalizing p with
  | nil =>
      rw [List.length_nil, Nat.zero_add]
      exact Steps.refl _
  | cons t ts ih =>
      rw [stream_cons, List.length_cons, Nat.succ_add]
      exact (h t (hconf t (by simp)) (hne t (by simp)) _ p).trans
        (ih (fun u hu => hconf u (by simp [hu])) (fun u hu => hne u (by simp [hu])) (p.note t))

/-- With a round for each byte, the loop reads up to the message that ends it. -/
theorem Notes.reads (h : Notes loop) (hconf : ∀ t ∈ ts, Conforms t)
    (hne : ∀ t ∈ ts, t.typ ≠ typeWaitingForFanoutIndex) {last : List UInt8} {result : Params → α}
    (hlast : ∀ rounds p, Reads (loop (rounds + 1) p) last (result p)) (p : Params) :
    Reads (get >>= fun s => loop ((Source.pending s).length + 1) p) (stream ts ++ last)
      (result (ts.foldl Params.note p)) := by
  refine Reads.fueled (fun rounds => loop rounds p) fun rounds hrounds => ?_
  have hlen := length_le_stream ts
  rw [List.length_append] at hrounds
  obtain ⟨more, rfl⟩ : ∃ more, rounds = ts.length + (more + 1) :=
    ⟨rounds - ts.length - 1, by omega⟩
  exact (h.steps hconf hne _ p).reads (hlast more _)

/-- If it waits on `part`, it waits on any sequence with `part` behind it. -/
theorem Notes.halts (h : Notes loop) (hconf : ∀ t ∈ ts, Conforms t)
    (hne : ∀ t ∈ ts, t.typ ≠ typeWaitingForFanoutIndex) {part : List UInt8} {w : ε}
    (hpart : ∀ rounds p, Halts w (loop (rounds + 1) p) part) (p : Params) :
    Halts w (get >>= fun s => loop ((Source.pending s).length + 1) p) (stream ts ++ part) := by
  refine Halts.fueled (fun rounds => loop rounds p) fun rounds hrounds => ?_
  have hlen := length_le_stream ts
  rw [List.length_append] at hrounds
  obtain ⟨more, rfl⟩ : ∃ more, rounds = ts.length + (more + 1) :=
    ⟨rounds - ts.length - 1, by omega⟩
  exact (h.steps hconf hne _ p).halts (hpart more _)

/-- `f` succeeds exactly on the greetings that settle on parameters, returns them, and leaves
what stands behind the greeting unread. -/
def Parses (f : EStateM ε σ α) (result : Params → α) : Prop :=
  ∀ (version : UInt8) (ts : List Tlv) (s : σ), (∀ t ∈ ts, Conforms t) →
    Source.pending s = version :: stream ts →
    (∀ p rest, Negotiates version ts p rest →
      ∃ s', f s = .ok (result p) s' ∧ Source.pending s' = stream rest) ∧
    ((∃ a s', f s = .ok a s') → ∃ p rest, Negotiates version ts p rest)

/-- A parser reads greetings right if it refuses other versions, waits for the
`WaitingForFanoutIndex`, and there looks at what it has noted. -/
theorem parses_of {f : EStateM ε σ α} {result : Params → α}
    (hversion : ∀ (version : UInt8) (rest : List UInt8) (s : σ), version ≠ 2 →
      Source.pending s = version :: rest → ∃ e s', f s = .error e s')
    (hnone : ∀ (ts : List Tlv) (s : σ), (∀ t ∈ ts, Conforms t) →
      (∀ t ∈ ts, t.typ ≠ typeWaitingForFanoutIndex) →
      Source.pending s = 2 :: stream ts → ∃ e s', f s = .error e s')
    (hwaiting : ∀ (before : List Tlv) (w : Tlv) (rest : List UInt8) (s : σ),
      (∀ t ∈ before, Conforms t) → (∀ t ∈ before, t.typ ≠ typeWaitingForFanoutIndex) →
      Conforms w → w.typ = typeWaitingForFanoutIndex →
      Source.pending s = 2 :: (stream before ++ w.bytes) ++ rest →
      let p := before.foldl Params.note .none
      (p.Complete → ∃ s', f s = .ok (result p) s' ∧ Source.pending s' = rest) ∧
      (¬ p.Complete → ∃ e s', f s = .error e s')) :
    Parses f result := by
  intro version ts s hconf hs
  by_cases hv : version = 2
  · subst hv
    rcases exists_waiting ts with hno | ⟨before, w, rest, rfl, hw, hb⟩
    · obtain ⟨e, s', hf⟩ := hnone ts s hconf hno hs
      constructor
      · intro p rest h
        obtain ⟨t, ht, htyp⟩ := h.waiting
        exact absurd htyp (hno t ht)
      · rintro ⟨a, s'', h⟩
        rw [hf] at h
        cases h
    · have hs' : Source.pending s = 2 :: (stream before ++ w.bytes) ++ stream rest := by
        rw [hs, stream_append, stream_cons]
        simp
      obtain ⟨hok, hfail⟩ := hwaiting before w (stream rest) s
        (fun t ht => hconf t (by simp [ht])) hb (hconf w (by simp)) hw hs'
      constructor
      · intro p rest' h
        obtain ⟨rfl, hcomplete, rfl⟩ := (negotiates_iff hw hb p rest').mp h
        exact hok hcomplete
      · rintro ⟨a, s', h⟩
        by_cases hcomplete : (before.foldl Params.note .none).Complete
        · exact ⟨_, _, (negotiates_iff hw hb _ _).mpr ⟨rfl, hcomplete, rfl⟩⟩
        · obtain ⟨e, s'', hf⟩ := hfail hcomplete
          rw [hf] at h
          cases h
  · obtain ⟨e, s', hf⟩ := hversion version _ s hv hs
    constructor
    · intro p rest h
      exact absurd h.version_eq hv
    · rintro ⟨a, s'', h⟩
      rw [hf] at h
      cases h

end

end Testimony.Handshake
