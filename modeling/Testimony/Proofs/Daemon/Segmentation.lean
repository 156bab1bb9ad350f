import Testimony.Daemon.Reads

/-!
# `Testimony.Proofs.Daemon.Segmentation`: `handleReads` and the cuts of its stream

`handleReads` reads a header with a single `Read` and a value with `io.ReadFull`. A cut inside a
value goes unnoticed, a cut inside a header ends the connection. `handleReads_eq_iff`: two ways to
cut a stream give the same posts and the same end exactly when the first cut inside a header is at
the same place.
-/

set_option autoImplicit false

namespace Testimony.Daemon

open Lib Lib.BigEndian Seg

/-! ### Headers -/

/-- How far it is from a header to the next one. There is none behind an invalid index. -/
def Word.span : Word → Option Nat
  | .tlv _ length => some (4 + length)
  | .invalid _ => none
  | .block _ => some 4

/-- A message takes at least its four header bytes. -/
theorem Word.four_le_span {w : Word} {d : Nat} (h : w.span = some d) : 4 ≤ d := by
  cases w with
  | tlv typ length =>
      cases h
      omega
  | invalid i => cases h
  | block i =>
      cases h
      omega

/-- The word a stream begins with. -/
def firstWord (numBlocks : Nat) (bytes : List UInt8) : Word :=
  classify numBlocks (uint32 (bytes.take 4))

/-- Where the next header begins. -/
def nextHeader (numBlocks : Nat) (bytes : List UInt8) : Option Nat :=
  if bytes.length < 4 then none else (firstWord numBlocks bytes).span

/-- The next header is at least four bytes on. -/
theorem four_le_nextHeader {numBlocks : Nat} {bytes : List UInt8} {d : Nat}
    (h : nextHeader numBlocks bytes = some d) : 4 ≤ d := by
  unfold nextHeader at h
  split at h
  · cases h
  · exact Word.four_le_span h

/-- The positions at which the headers of a stream begin, up to that of the first invalid
index. -/
def headers (numBlocks : Nat) (bytes : List UInt8) : List Nat :=
  if _hne : bytes = [] then []
  else
    0 :: match _hd : nextHeader numBlocks bytes with
      | none => []
      | some d => (headers numBlocks (bytes.drop d)).map (· + d)
termination_by bytes.length
decreasing_by
  have hd := four_le_nextHeader _hd
  have hlen := List.length_pos_iff.mpr _hne
  rw [List.length_drop]
  omega

/-- Position `p` lies inside a header. -/
def InsideHeader (numBlocks : Nat) (bytes : List UInt8) (p : Nat) : Prop :=
  ∃ h ∈ headers numBlocks bytes, h < p ∧ p < h + 4

/-- A position is compared with the headers before it, which are finitely many. -/
instance (numBlocks : Nat) (bytes : List UInt8) (p : Nat) :
    Decidable (InsideHeader numBlocks bytes p) :=
  inferInstanceAs (Decidable (∃ h ∈ headers numBlocks bytes, _))

/-- The first cut inside a header. -/
def firstSplit (numBlocks : Nat) (net : List Seg) : Option Nat :=
  (cuts net).find? fun p => InsideHeader numBlocks (pending net) p

variable {numBlocks : Nat} {bytes : List UInt8} {net : List Seg}

/-- There is no header in an empty stream. -/
theorem not_insideHeader_nil (p : Nat) : ¬ InsideHeader numBlocks [] p := by
  rw [InsideHeader, headers, dif_pos rfl]
  simp

/-- The last header. -/
theorem insideHeader_last (hne : bytes ≠ []) (h : nextHeader numBlocks bytes = none) {p : Nat} :
    InsideHeader numBlocks bytes p ↔ 0 < p ∧ p < 4 := by
  have hheaders : headers numBlocks bytes = [0] := by
    rw [headers, dif_neg hne]
    split
    · rfl
    · rename_i d hd
      rw [h] at hd
      cases hd
  simp [InsideHeader, hheaders]

/-- A header and those behind it. -/
theorem insideHeader_next (hne : bytes ≠ []) {d : Nat} (h : nextHeader numBlocks bytes = some d)
    {p : Nat} : InsideHeader numBlocks bytes p ↔
      0 < p ∧ p < 4 ∨ d < p ∧ InsideHeader numBlocks (bytes.drop d) (p - d) := by
  have hheaders : headers numBlocks bytes =
      0 :: (headers numBlocks (bytes.drop d)).map (· + d) := by
    rw [headers, dif_neg hne]
    split
    · rename_i hd
      rw [h] at hd
      cases hd
    · rename_i d' hd
      rw [h] at hd
      cases hd
      rfl
  simp only [InsideHeader, hheaders, List.mem_cons, List.mem_map]
  constructor
  · rintro ⟨_, rfl | ⟨q, hq, rfl⟩, hlt, hlt'⟩
    · exact .inl ⟨hlt, by omega⟩
    · exact .inr ⟨by omega, q, hq, by omega, by omega⟩
  · rintro (⟨hlt, hlt'⟩ | ⟨hd, q, hq, hlt, hlt'⟩)
    · exact ⟨0, .inl rfl, hlt, by omega⟩
    · exact ⟨q + d, .inr ⟨q, hq, rfl⟩, by omega, by omega⟩

/-! ### The first split -/

/-- Nothing is cut where there is nothing to read. -/
theorem firstSplit_of_pending_nil (h : pending net = []) : firstSplit numBlocks net = none := by
  rw [firstSplit, cuts_of_pending_nil h]
  rfl

/-- A cut in the first header. -/
theorem firstSplit_early (hne : pending net ≠ []) {a : Nat} {as : List Nat}
    (h : cuts net = a :: as) (hlt : a < 4) : firstSplit numBlocks net = some a := by
  have hpos : 0 < a := cuts_pos net a (h ▸ List.mem_cons_self)
  have hinside : InsideHeader numBlocks (pending net) a := by
    cases hnext : nextHeader numBlocks (pending net) with
    | none => exact (insideHeader_last hne hnext).mpr ⟨hpos, hlt⟩
    | some d => exact (insideHeader_next hne hnext).mpr (.inl ⟨hpos, hlt⟩)
  rw [firstSplit, h, List.find?_cons_of_pos (by simpa using hinside)]

/-- A first piece of four bytes or more does not cut the first header. -/
theorem four_le_firstSplit {a : Nat} {as : List Nat} (h : cuts net = a :: as) (hge : 4 ≤ a)
    {p : Nat} (hp : firstSplit numBlocks net = some p) : 4 ≤ p :=
  Nat.le_trans hge (head_le_of_mem_cuts h p (List.mem_of_find?_eq_some hp))

/-- No cut in the first header, and no other one. -/
theorem firstSplit_last (hne : pending net ≠ []) {a : Nat} {as : List Nat}
    (h : cuts net = a :: as) (hge : 4 ≤ a) (hnext : nextHeader numBlocks (pending net) = none) :
    firstSplit numBlocks net = none := by
  refine List.find?_eq_none.mpr fun p hp => ?_
  have hap := head_le_of_mem_cuts h p hp
  rw [decide_eq_true_eq, insideHeader_last hne hnext]
  omega

/-- No cut in the first header, and behind it a value that is not all there. -/
theorem firstSplit_cutOff (hne : pending net ≠ []) {a : Nat} {as : List Nat}
    (h : cuts net = a :: as) (hge : 4 ≤ a) {d : Nat}
    (hnext : nextHeader numBlocks (pending net) = some d) (hlen : (pending net).length < d) :
    firstSplit numBlocks net = none := by
  refine List.find?_eq_none.mpr fun p hp => ?_
  have hap := head_le_of_mem_cuts h p hp
  rw [decide_eq_true_eq, insideHeader_next hne hnext, List.drop_eq_nil_of_le (Nat.le_of_lt hlen)]
  rintro (hlt | ⟨-, hinside⟩)
  · omega
  · exact not_insideHeader_nil _ hinside

/-- No cut in the first header, and more of them. -/
theorem firstSplit_next (hne : pending net ≠ []) {a : Nat} {as : List Nat}
    (h : cuts net = a :: as) (hge : 4 ≤ a) {d : Nat}
    (hnext : nextHeader numBlocks (pending net) = some d) {net' : List Seg}
    (hpending : pending net' = (pending net).drop d) (hcuts : cuts net' = past d (cuts net)) :
    firstSplit numBlocks net = (firstSplit numBlocks net').map (· + d) := by
  have hd := four_le_nextHeader hnext
  rw [firstSplit, firstSplit, hcuts, hpending]
  apply find?_past
  · -- Up to the next header there is only the value of a TLV.
    intro p hp hle
    have hap := head_le_of_mem_cuts h p hp
    rw [decide_eq_false_iff_not, insideHeader_next hne hnext]
    omega
  · intro p hp
    rw [decide_eq_decide, insideHeader_next hne hnext, Nat.add_sub_cancel]
    constructor
    · rintro (hlt | hinside)
      · omega
      · exact hinside.2
    · exact fun hinside => .inr ⟨by omega, hinside⟩

/-! ### A round of the loop -/

/-- What a word makes `handleReads` post. -/
def Word.posts : Word → List Nat
  | .block i => [i + 1]
  | _ => []

/-- The same with `vs` posted before. -/
def ReadsResult.after (vs : List Nat) (r : ReadsResult) : ReadsResult :=
  { r with posted := vs ++ r.posted }

/-- Nothing to read. -/
theorem readsLoop_nil (h : pending net = []) (rounds : Nat) :
    readsLoop numBlocks (rounds + 1) net = ⟨[], .of (ending net), []⟩ := by
  rw [readsLoop, fetch_stop 4 h]

/-- A cut inside the header. -/
theorem readsLoop_split (hne : pending net ≠ []) {a : Nat} {as : List Nat} (h : cuts net = a :: as)
    (hlt : a < 4) (rounds : Nat) :
    readsLoop numBlocks (rounds + 1) net = ⟨[], .returned, (pending net).drop a⟩ := by
  obtain ⟨a', as', hcuts, hle, hfetch⟩ := fetch_cut hne
  rw [h] at hcuts
  obtain ⟨rfl, rfl⟩ := List.cons.inj hcuts
  obtain ⟨rest, hgot, hrest, -, -⟩ := hfetch 4 (by decide)
  rw [Nat.min_eq_right (by omega)] at hgot hrest
  have hlen : ((pending net).take a).length ≠ 4 := by
    rw [List.length_take]
    omega
  rw [readsLoop, hgot]
  simp only [if_pos hlen, hrest]

/-- No cut inside the header: the `Read` returns all of it. -/
theorem fetch_header {a : Nat} {as : List Nat} (h : cuts net = a :: as) (hge : 4 ≤ a) :
    ∃ rest, fetch 4 net = .got ((pending net).take 4) rest ∧ ((pending net).take 4).length = 4 ∧
      pending rest = (pending net).drop 4 ∧ ending rest = ending net ∧
      cuts rest = past 4 (cuts net) := by
  have hne : pending net ≠ [] := by
    intro hnil
    rw [cuts_of_pending_nil hnil] at h
    cases h
  obtain ⟨a', as', hcuts, hle, hfetch⟩ := fetch_cut hne
  rw [h] at hcuts
  obtain ⟨rfl, rfl⟩ := List.cons.inj hcuts
  obtain ⟨rest, hgot, hrest, hending, hcuts⟩ := hfetch 4 (by decide)
  rw [Nat.min_eq_left hge] at hgot hrest hcuts
  refine ⟨rest, hgot, ?_, hrest, hending, hcuts⟩
  rw [List.length_take]
  omega

/-- There is at least as much to read as the first piece has. -/
theorem four_le_length {a : Nat} {as : List Nat} (h : cuts net = a :: as) (hge : 4 ≤ a) :
    4 ≤ (pending net).length := by
  obtain ⟨-, -, hlen, -⟩ := fetch_header h hge
  rw [List.length_take] at hlen
  omega

/-- A round that has read its header. -/
theorem readsLoop_whole (numBlocks : Nat) {a : Nat} {as : List Nat} (h : cuts net = a :: as)
    (hge : 4 ≤ a) (rounds : Nat) :
    nextHeader numBlocks (pending net) = (firstWord numBlocks (pending net)).span ∧
    ∃ rest, pending rest = (pending net).drop 4 ∧ ending rest = ending net ∧
      cuts rest = past 4 (cuts net) ∧
      readsLoop numBlocks (rounds + 1) net =
        match firstWord numBlocks (pending net) with
        | .tlv _ length =>
            match skip length rest with
            | some net => readsLoop numBlocks rounds net
            | none => ⟨[], .of (ending rest), []⟩
        | .invalid _ => ⟨[], .returned, pending rest⟩
        | .block i => (readsLoop numBlocks rounds rest).post (i + 1) := by
  have hlen := four_le_length h hge
  obtain ⟨rest, hgot, hlen', hrest, hending, hcuts⟩ := fetch_header h hge
  refine ⟨if_neg (by omega), rest, hrest, hending, hcuts, ?_⟩
  rw [readsLoop, hgot]
  simp only [hlen', ne_eq, not_true_eq_false, if_false]
  rfl

/-- The index is invalid. -/
theorem readsLoop_last {a : Nat} {as : List Nat} (h : cuts net = a :: as) (hge : 4 ≤ a)
    (hnext : nextHeader numBlocks (pending net) = none) (rounds : Nat) :
    readsLoop numBlocks (rounds + 1) net = ⟨[], .returned, (pending net).drop 4⟩ := by
  obtain ⟨hspan, rest, hrest, -, -, heq⟩ := readsLoop_whole numBlocks h hge rounds
  rw [hnext] at hspan
  rw [heq]
  cases hw : firstWord numBlocks (pending net) with
  | invalid i => simp only [hrest]
  | block i | tlv typ length =>
      rw [hw] at hspan
      cases hspan

/-- The value is not all there. -/
theorem readsLoop_cutOff {a : Nat} {as : List Nat} (h : cuts net = a :: as) (hge : 4 ≤ a) {d : Nat}
    (hnext : nextHeader numBlocks (pending net) = some d) (hlen : (pending net).length < d)
    (rounds : Nat) : readsLoop numBlocks (rounds + 1) net = ⟨[], .of (ending net), []⟩ := by
  have hle := four_le_length h hge
  obtain ⟨hspan, rest, hrest, hending, -, heq⟩ :=
    readsLoop_whole numBlocks h hge rounds
  rw [hnext] at hspan
  rw [heq]
  cases hw : firstWord numBlocks (pending net) with
  | invalid i =>
      rw [hw] at hspan
      cases hspan
  | block i =>
      rw [hw] at hspan
      cases hspan
      omega
  | tlv typ length =>
      rw [hw] at hspan
      cases hspan
      have hshort : (pending rest).length < length := by
        rw [hrest, List.length_drop]
        omega
      simp only [skip_none hshort, hending]

/-- The loop goes on at the next header. `io.ReadFull` does not notice the cuts on the way. -/
theorem readsLoop_next {a : Nat} {as : List Nat} (h : cuts net = a :: as) (hge : 4 ≤ a) {d : Nat}
    (hnext : nextHeader numBlocks (pending net) = some d) (hle : d ≤ (pending net).length)
    (rounds : Nat) :
    ∃ net', pending net' = (pending net).drop d ∧ ending net' = ending net ∧
      cuts net' = past d (cuts net) ∧
      readsLoop numBlocks (rounds + 1) net =
        (readsLoop numBlocks rounds net').after (firstWord numBlocks (pending net)).posts := by
  obtain ⟨hspan, rest, hrest, hending, hcuts, heq⟩ :=
    readsLoop_whole numBlocks h hge rounds
  rw [hnext] at hspan
  rw [heq]
  cases hw : firstWord numBlocks (pending net) with
  | invalid i =>
      rw [hw] at hspan
      cases hspan
  | block i =>
      rw [hw] at hspan
      cases hspan
      exact ⟨rest, hrest, hending, hcuts, rfl⟩
  | tlv typ length =>
      rw [hw] at hspan
      cases hspan
      have hvalue : length ≤ (pending rest).length := by
        rw [hrest, List.length_drop]
        omega
      obtain ⟨net', hskip, hpending', hending', hcuts'⟩ := skip_some hvalue
      refine ⟨net', ?_, hending'.trans hending, ?_, ?_⟩
      · rw [hpending', hrest, List.drop_drop]
      · rw [hcuts', hcuts, past_past]
      · simp only [hskip]
        rfl

/-- A round that reads its header takes at least these four bytes. -/
theorem length_unread_whole {rounds : Nat} (ih : ∀ net : List Seg,
    (readsLoop numBlocks rounds net).unread.length ≤ (pending net).length) {a : Nat} {as : List Nat}
    (h : cuts net = a :: as) (hge : 4 ≤ a) :
    (readsLoop numBlocks (rounds + 1) net).unread.length ≤ (pending net).length - 4 := by
  cases hnext : nextHeader numBlocks (pending net) with
  | none => rw [readsLoop_last h hge hnext, List.length_drop]
  | some d =>
      rcases Nat.lt_or_ge (pending net).length d with hlen | hle
      · rw [readsLoop_cutOff h hge hnext hlen]
        exact Nat.zero_le _
      · obtain ⟨net', hpending, -, -, heq⟩ := readsLoop_next h hge hnext hle rounds
        have hunread := ih net'
        have hd := four_le_nextHeader hnext
        rw [hpending, List.length_drop] at hunread
        rw [heq]
        show (readsLoop numBlocks rounds net').unread.length ≤ _
        omega

/-- What is left unread is a part of what there was. -/
theorem length_unread_le (numBlocks rounds : Nat) : ∀ net : List Seg,
    (readsLoop numBlocks rounds net).unread.length ≤ (pending net).length := by
  induction rounds with
  | zero => exact fun net => Nat.le_refl _
  | succ rounds ih =>
      intro net
      by_cases hne : pending net = []
      · rw [readsLoop_nil hne]
        exact Nat.zero_le _
      obtain ⟨a, as, hcuts, -⟩ := fetch_cut hne
      rcases Nat.lt_or_ge a 4 with hlt | hge
      · rw [readsLoop_split hne hcuts hlt, List.length_drop]
        omega
      · exact Nat.le_trans (length_unread_whole ih hcuts hge) (Nat.sub_le _ _)

/-! ### Two ways to cut a stream -/

/-- A cut inside the first header, on one side only. -/
theorem readsLoop_ne {A B : List Seg} (hbytes : pending A = pending B) (hA : pending A ≠ [])
    {a b : Nat} {as bs : List Nat} (ha : cuts A = a :: as) (hb : cuts B = b :: bs) (hlt : a < 4)
    (hge : 4 ≤ b) (rounds : Nat) :
    readsLoop numBlocks (rounds + 1) A ≠ readsLoop numBlocks (rounds + 1) B := by
  intro heq
  have hlen := four_le_length hb hge
  -- `A` is left with more bytes than `B`.
  have hle := length_unread_whole (length_unread_le numBlocks rounds) hb hge
  rw [← heq, readsLoop_split hA ha hlt, List.length_drop, hbytes] at hle
  omega

/-- A cut inside the first header and one behind it are different cuts. -/
theorem firstSplit_ne {A B : List Seg} (hA : pending A ≠ []) {a b : Nat} {as bs : List Nat}
    (ha : cuts A = a :: as) (hb : cuts B = b :: bs) (hlt : a < 4) (hge : 4 ≤ b) :
    firstSplit numBlocks A ≠ firstSplit numBlocks B := by
  intro heq
  rw [firstSplit_early hA ha hlt] at heq
  have hle := four_le_firstSplit hb hge heq.symm
  omega

/-- Two results that differ still differ behind the same posts. -/
theorem ReadsResult.after_inj {vs : List Nat} {r r' : ReadsResult} :
    r.after vs = r'.after vs ↔ r = r' := by
  obtain ⟨posted, stop, unread⟩ := r
  obtain ⟨posted', stop', unread'⟩ := r'
  simp [ReadsResult.after]

/-- The rounds of the two sides go in step as long as no header is cut. -/
theorem readsLoop_eq_iff (rounds : Nat) : ∀ A B : List Seg, pending A = pending B →
    ending A = ending B → (pending A).length < rounds →
    (readsLoop numBlocks rounds A = readsLoop numBlocks rounds B ↔
      firstSplit numBlocks A = firstSplit numBlocks B) := by
  induction rounds with
  | zero => exact fun A B _ _ h => absurd h (Nat.not_lt_zero _)
  | succ rounds ih =>
      intro A B hbytes hend hrounds
      by_cases hA : pending A = []
      · have hB := hbytes ▸ hA
        rw [readsLoop_nil hA, readsLoop_nil hB, hend, firstSplit_of_pending_nil hA,
          firstSplit_of_pending_nil hB]
        simp
      have hB : pending B ≠ [] := hbytes ▸ hA
      obtain ⟨a, as, ha, hale, -⟩ := fetch_cut hA
      obtain ⟨b, bs, hb, hble, -⟩ := fetch_cut hB
      rcases Nat.lt_or_ge a 4 with ha4 | ha4 <;> rcases Nat.lt_or_ge b 4 with hb4 | hb4
      · -- Both sides end in the first header.
        rw [readsLoop_split hA ha ha4, readsLoop_split hB hb hb4, firstSplit_early hA ha ha4,
          firstSplit_early hB hb hb4, hbytes]
        constructor
        · intro heq
          have hlen := congrArg (fun r => r.unread.length) heq
          simp only [List.length_drop] at hlen
          rw [hbytes] at hale
          rw [Option.some.injEq]
          omega
        · intro heq
          rw [Option.some.inj heq]
      -- One side ends in the first header, and the other reads it.
      · exact iff_of_false (readsLoop_ne hbytes hA ha hb ha4 hb4 rounds)
          (firstSplit_ne hA ha hb ha4 hb4)
      · exact iff_of_false (readsLoop_ne hbytes.symm hB hb ha hb4 ha4 rounds).symm
          (firstSplit_ne hB hb ha hb4 ha4).symm
      · -- Both sides read the first header, and see the same word.
        have hnextB := congrArg (nextHeader numBlocks) hbytes
        cases hnext : nextHeader numBlocks (pending A) with
        | none =>
            rw [hnext] at hnextB
            rw [readsLoop_last ha ha4 hnext, readsLoop_last hb hb4 hnextB.symm, hbytes,
              firstSplit_last hA ha ha4 hnext, firstSplit_last hB hb hb4 hnextB.symm]
            simp
        | some d =>
            rw [hnext] at hnextB
            rcases Nat.lt_or_ge (pending A).length d with hlen | hle
            · rw [readsLoop_cutOff ha ha4 hnext hlen,
                readsLoop_cutOff hb hb4 hnextB.symm (hbytes ▸ hlen), hend,
                firstSplit_cutOff hA ha ha4 hnext hlen,
                firstSplit_cutOff hB hb hb4 hnextB.symm (hbytes ▸ hlen)]
              simp
            · obtain ⟨A', hpending, hending, hcuts, hr⟩ := readsLoop_next ha ha4 hnext hle rounds
              obtain ⟨B', hpending', hending', hcuts', hr'⟩ :=
                readsLoop_next hb hb4 hnextB.symm (hbytes ▸ hle) rounds
              have hd := four_le_nextHeader hnext
              have hrounds' : (pending A').length < rounds := by
                rw [hpending, List.length_drop]
                omega
              rw [hr, hr', hbytes, ReadsResult.after_inj,
                ih A' B' (by rw [hpending, hpending', hbytes]) (by rw [hending, hending', hend])
                  hrounds',
                firstSplit_next hA ha ha4 hnext hpending hcuts,
                firstSplit_next hB hb hb4 hnextB.symm hpending' hcuts']
              exact (Option.map_injective fun _ _ h => Nat.add_right_cancel h).eq_iff.symm

/-- Two ways to cut the same stream make `handleReads` post the same values and end at the same
point exactly when the first cut inside a header is the same. -/
theorem handleReads_eq_iff (numBlocks : Nat) (A B : List Seg) (hbytes : pending A = pending B)
    (hend : ending A = ending B) :
    handleReads numBlocks A = handleReads numBlocks B ↔
      firstSplit numBlocks A = firstSplit numBlocks B := by
  unfold handleReads
  rw [← hbytes]
  exact readsLoop_eq_iff _ A B hbytes hend (Nat.lt_succ_self _)

/-- Block 2, a TLV with three bytes, and block 1, in one piece or cut inside the value. -/
theorem handleReads_eq_iff_value :
    let A : List Seg := [.data 0 [0, 0, 2, 0xC0, 0x07, 0, 3, 7, 8, 9, 0, 0, 0, 1], .eof]
    let B : List Seg :=
      [.data 0 [0, 0, 2, 0xC0, 0x07, 0, 3, 7], .data 8 [9], .data 0 [0, 0, 1], .eof]
    handleReads 4 A = ⟨[3, 2], .returned, []⟩ ∧ handleReads 4 A = handleReads 4 B :=
  ⟨by decide +kernel, (handleReads_eq_iff 4 _ _ rfl rfl).mpr (by decide +kernel)⟩

/-- The index 0 arrives in two pieces, and the connection is closed. -/
theorem split_index_refused :
    let A : List Seg := [.data 0 [0, 0, 0], .eof]
    let B : List Seg := [.data 0 [0], .data 0 [0], .eof]
    pending A = pending B ∧ handleReads 1 A = ⟨[1], .returned, []⟩ ∧
      handleReads 1 B = ⟨[], .returned, [0, 0]⟩ := by
  decide +kernel

end Testimony.Daemon
