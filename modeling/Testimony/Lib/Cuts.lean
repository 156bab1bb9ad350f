import Testimony.Lib.Socket

/-!
# `Testimony.Lib.Cuts`: where a stream is cut

`Seg.cuts` lists the positions of a stream at which one arrival ends, the end of the stream among
them. A single read stops at a cut (`fetch_cut`), a read that is repeated until it has all its
bytes does not care about them (`Seg.skip`). After either of them the cuts that are left are those
behind the bytes taken, `past`.
-/

set_option autoImplicit false

namespace Lib

/-- The positions behind `d`, counted from there. -/
def past (d : Nat) (l : List Nat) : List Nat := (l.filter (d < ·)).map (· - d)

/-- A position that lies ahead is counted from the new place. -/
theorem past_cons_of_lt {d p : Nat} (h : d < p) (l : List Nat) :
    past d (p :: l) = (p - d) :: past d l := by
  simp [past, h]

/-- A position that is behind is forgotten. -/
theorem past_cons_of_le {d p : Nat} (h : p ≤ d) (l : List Nat) : past d (p :: l) = past d l := by
  simp [past, Nat.not_lt.mpr h]

/-- Positions that are all counted from an earlier point. -/
theorem past_map_add (a d : Nat) (l : List Nat) :
    past (a + d) (l.map (· + a)) = past d l := by
  induction l with
  | nil => rfl
  | cons p l ih =>
      rw [List.map_cons]
      by_cases hp : d < p
      · rw [past_cons_of_lt (by omega), past_cons_of_lt hp, ih]
        congr 1
        omega
      · rw [past_cons_of_le (by omega), past_cons_of_le (by omega), ih]

/-- Two moves forward are one. -/
theorem past_past (d e : Nat) (l : List Nat) : past e (past d l) = past (d + e) l := by
  induction l with
  | nil => rfl
  | cons p l ih =>
      by_cases hd : d < p
      · rw [past_cons_of_lt hd]
        by_cases he : d + e < p
        · rw [past_cons_of_lt (by omega), past_cons_of_lt he, ih, Nat.sub_sub]
        · rw [past_cons_of_le (by omega), past_cons_of_le (by omega), ih]
      · rw [past_cons_of_le (by omega), past_cons_of_le (by omega), ih]

/-- All of them lie behind. -/
theorem past_map_add_of_pos {a d : Nat} (h : d ≤ a) {l : List Nat} (hpos : ∀ p ∈ l, 0 < p) :
    past d (l.map (· + a)) = l.map (· + (a - d)) := by
  induction l with
  | nil => rfl
  | cons p l ih =>
      have hp := hpos p List.mem_cons_self
      rw [List.map_cons, List.map_cons, past_cons_of_lt (by omega),
        ih fun q hq => hpos q (List.mem_cons_of_mem p hq)]
      congr 1
      omega

/-- A search that finds nothing up to `d` goes on behind it. -/
theorem find?_past {d : Nat} {P Q : Nat → Bool} {l : List Nat}
    (hle : ∀ p ∈ l, p ≤ d → P p = false) (hlt : ∀ p, 0 < p → P (p + d) = Q p) :
    l.find? P = ((past d l).find? Q).map (· + d) := by
  induction l with
  | nil => rfl
  | cons p l ih =>
      have ih := ih fun q hq => hle q (List.mem_cons_of_mem p hq)
      by_cases hp : d < p
      · have heq : P p = Q (p - d) := by
          rw [← hlt (p - d) (by omega), Nat.sub_add_cancel (Nat.le_of_lt hp)]
        rw [past_cons_of_lt hp, List.find?_cons, List.find?_cons, heq, ih]
        cases Q (p - d)
        · rfl
        · simp only [Option.map_some, Option.some.injEq]
          omega
      · rw [past_cons_of_le (by omega), List.find?_cons,
          hle p List.mem_cons_self (by omega), ih]

namespace Seg

/-- The positions at which an arrival ends. -/
def cuts : List Seg → List Nat
  | [] => []
  | .data _ bs :: segs => (bs.length + 1) :: (cuts segs).map (· + (bs.length + 1))
  | .eintr :: segs => cuts segs
  | .eof :: _ => []
  | .error _ :: _ => []

/-- No boundary is at the very start of the stream: a segment has at least one byte. -/
theorem cuts_pos (segs : List Seg) : ∀ p ∈ cuts segs, 0 < p := by
  induction segs with
  | nil => exact nofun
  | cons seg segs ih =>
      intro p hp
      cases seg with
      | data b bs =>
          rcases List.mem_cons.mp hp with rfl | hp
          · exact Nat.succ_pos _
          · obtain ⟨q, -, rfl⟩ := List.mem_map.mp hp
            omega
      | eintr => exact ih p hp
      | eof => cases hp
      | error errno => cases hp

/-- Nothing pending, nothing cut. -/
theorem cuts_of_pending_nil {segs : List Seg} (h : pending segs = []) : cuts segs = [] := by
  induction segs with
  | nil => rfl
  | cons seg segs ih =>
      cases seg with
      | data b bs => cases h
      | eintr => exact ih h
      | eof => rfl
      | error errno => rfl

/-- The first cut comes first. -/
theorem head_le_of_mem_cuts {segs : List Seg} {a : Nat} {as : List Nat} (h : cuts segs = a :: as) :
    ∀ p ∈ cuts segs, a ≤ p := by
  induction segs with
  | nil => cases h
  | cons seg segs ih =>
      intro p hp
      cases seg with
      | data b bs =>
          obtain ⟨rfl, -⟩ := List.cons.inj h
          rcases List.mem_cons.mp hp with rfl | hp
          · exact Nat.le_refl _
          · obtain ⟨q, -, rfl⟩ := List.mem_map.mp hp
            omega
      | eintr => exact ih h p hp
      | eof => cases hp
      | error errno => cases hp

/-- What is left of an arrival of which the first `d` bytes were taken. -/
theorem cuts_unread (b : UInt8) (bs : List UInt8) (segs : List Seg) {d : Nat}
    (h : d ≤ bs.length + 1) :
    cuts (unread ((b :: bs).drop d) segs) = past d (cuts (.data b bs :: segs)) := by
  have hpos := cuts_pos segs
  have hlen : ((b :: bs).drop d).length = bs.length + 1 - d := by
    rw [List.length_drop, List.length_cons]
  cases hrest : (b :: bs).drop d with
  | nil =>
      -- All of it was taken.
      rw [hrest, List.length_nil] at hlen
      have hd : d = bs.length + 1 := by omega
      subst hd
      rw [cuts, past_cons_of_le (Nat.le_refl _), past_map_add_of_pos (Nat.le_refl _) hpos,
        Nat.sub_self]
      simp [unread]
  | cons c cs =>
      rw [hrest, List.length_cons] at hlen
      rw [cuts, past_cons_of_lt (by omega), past_map_add_of_pos h hpos, ← hlen]
      rfl

/-- Something is pending exactly when an arrival is left. The first cut is where a read stops. -/
theorem fetch_cut {segs : List Seg} (h : pending segs ≠ []) :
    ∃ a as, cuts segs = a :: as ∧ a ≤ (pending segs).length ∧ ∀ n, 0 < n →
      ∃ rest, fetch n segs = .got ((pending segs).take (min n a)) rest ∧
        pending rest = (pending segs).drop (min n a) ∧ ending rest = ending segs ∧
        cuts rest = past (min n a) (cuts segs) := by
  induction segs with
  | nil => exact absurd rfl h
  | cons seg segs ih =>
      cases seg with
      | data b bs =>
          have hpending : pending (.data b bs :: segs) = (b :: bs) ++ pending segs := rfl
          refine ⟨bs.length + 1, _, rfl, by simp [hpending], fun n hn => ?_⟩
          have hlen : (b :: bs).length = bs.length + 1 := rfl
          have htake : (b :: bs).take n = (b :: bs).take (min n (bs.length + 1)) := by
            rw [← hlen, List.take_eq_take_min]
          have hdrop : (b :: bs).drop n = (b :: bs).drop (min n (bs.length + 1)) := by
            rcases Nat.le_total n (bs.length + 1) with hle | hle
            · rw [Nat.min_eq_left hle]
            · rw [Nat.min_eq_right hle, List.drop_eq_nil_of_le (by omega),
                List.drop_eq_nil_of_le (by omega)]
          have hmin : min n (bs.length + 1) ≤ (b :: bs).length := by
            rw [hlen]
            exact Nat.min_le_right _ _
          refine ⟨unread ((b :: bs).drop n) segs, ?_, ?_, ending_unread _ _, ?_⟩
          · rw [hpending, List.take_append_of_le_length hmin, ← htake]
            rfl
          · rw [hpending, List.drop_append_of_le_length hmin, pending_unread, hdrop]
          · rw [hdrop, cuts_unread b bs segs (Nat.min_le_right _ _)]
      | eintr => exact ih h
      | eof => exact absurd rfl h
      | error errno => exact absurd rfl h

/-- Read until `n` bytes have come, and leave what is behind them. -/
def skip : Nat → List Seg → Option (List Seg)
  | 0, segs => some segs
  | _ + 1, [] => none
  | n + 1, .data b bs :: segs =>
      if n ≤ bs.length then some (unread ((b :: bs).drop (n + 1)) segs)
      else skip (n - bs.length) segs
  | n + 1, .eintr :: segs => skip (n + 1) segs
  | _ + 1, .eof :: _ => none
  | _ + 1, .error _ :: _ => none

/-- The bytes come, however they are cut. -/
theorem skip_some {n : Nat} {segs : List Seg} (h : n ≤ (pending segs).length) :
    ∃ rest, skip n segs = some rest ∧ pending rest = (pending segs).drop n ∧
      ending rest = ending segs ∧ cuts rest = past n (cuts segs) := by
  induction segs generalizing n with
  | nil =>
      obtain rfl : n = 0 := Nat.le_zero.mp h
      exact ⟨[], rfl, rfl, rfl, rfl⟩
  | cons seg segs ih =>
      cases n with
      | zero =>
          refine ⟨seg :: segs, by cases seg <;> rfl, rfl, rfl, ?_⟩
          have hpos := past_map_add_of_pos (Nat.le_refl 0) (cuts_pos (seg :: segs))
          simpa using hpos.symm
      | succ n =>
          cases seg with
          | data b bs =>
              have hpending : pending (.data b bs :: segs) = (b :: bs) ++ pending segs := rfl
              rw [hpending, List.length_append, List.length_cons] at h
              by_cases hle : n ≤ bs.length
              · refine ⟨_, if_pos hle, ?_, ending_unread _ _, cuts_unread b bs segs (by omega)⟩
                rw [pending_unread, hpending, List.drop_append_of_le_length]
                rw [List.length_cons]
                omega
              · obtain ⟨rest, hskip, hrest, hend, hcuts⟩ := ih (n := n - bs.length) (by omega)
                refine ⟨rest, ?_, ?_, hend, ?_⟩
                · rw [skip, if_neg hle, hskip]
                · have htaken : (b :: bs).drop (n + 1) = [] :=
                    List.drop_eq_nil_of_le (by rw [List.length_cons]; omega)
                  rw [hrest, hpending, List.drop_append, htaken, List.nil_append, List.length_cons]
                  congr 1
                  omega
                · rw [hcuts, cuts, past_cons_of_le (by omega)]
                  have hadd : n + 1 = bs.length + 1 + (n - bs.length) := by omega
                  rw [hadd, past_map_add]
          | eintr => exact ih h
          | eof => exact absurd h (by simp [pending])
          | error errno => exact absurd h (by simp [pending])

/-- They do not all come. -/
theorem skip_none {n : Nat} {segs : List Seg} (h : (pending segs).length < n) :
    skip n segs = none := by
  induction segs generalizing n with
  | nil =>
      cases n with
      | zero => cases h
      | succ n => rfl
  | cons seg segs ih =>
      cases n with
      | zero => cases h
      | succ n =>
          cases seg with
          | data b bs =>
              have hpending : pending (.data b bs :: segs) = (b :: bs) ++ pending segs := rfl
              rw [hpending, List.length_append, List.length_cons] at h
              rw [skip, if_neg (by omega), ih (by omega)]
          | eintr => exact ih h
          | eof => rfl
          | error errno => rfl

/-- A read leaves the end where it is. -/
theorem ending_of_fetch {n : Nat} {segs rest : List Seg} {bytes : List UInt8}
    (h : fetch n segs = .got bytes rest) : ending rest = ending segs := by
  induction segs with
  | nil => cases h
  | cons seg segs ih =>
      cases seg with
      | data b bs =>
          cases h
          exact ending_unread _ _
      | eintr => exact ih h
      | eof => cases h
      | error errno => cases h

/-- A read returns at least a byte, and no more than fits. -/
theorem fetch_length {n : Nat} (hn : 0 < n) {segs rest : List Seg} {bytes : List UInt8}
    (h : fetch n segs = .got bytes rest) :
    0 < bytes.length ∧ bytes.length ≤ n ∧ pending segs = bytes ++ pending rest := by
  have hne : pending segs ≠ [] := fun hnil => by
    rw [fetch_stop n hnil] at h
    cases h
  obtain ⟨bytes', rest', hgot, hbytes, hle, hpending, -⟩ := fetch_got hn hne
  rw [h] at hgot
  cases hgot
  exact ⟨List.length_pos_iff.mpr hbytes, hle, hpending⟩

/-- What is behind a read is shorter. -/
theorem length_rest_lt {n : Nat} (hn : 0 < n) {segs rest : List Seg} {bytes : List UInt8}
    (h : fetch n segs = .got bytes rest) : (pending rest).length < (pending segs).length := by
  obtain ⟨hpos, -, hpending⟩ := fetch_length hn h
  rw [hpending, List.length_append]
  omega

/-- What is behind skipped bytes is no longer. -/
theorem length_skip_le {segs rest : List Seg} {n : Nat} (h : skip n segs = some rest) :
    (pending rest).length ≤ (pending segs).length := by
  by_cases hle : n ≤ (pending segs).length
  · obtain ⟨rest', hskip, hpending, -⟩ := skip_some hle
    rw [h] at hskip
    cases hskip
    rw [hpending, List.length_drop]
    omega
  · rw [skip_none (Nat.not_le.mp hle)] at h
    cases h

/-- To take no bytes leaves the stream as it is. -/
theorem skip_zero (segs : List Seg) : skip 0 segs = some segs := by
  cases segs with
  | nil => rfl
  | cons seg segs => cases seg <;> rfl

/-- Reading a part of the bytes and then the rest is reading all of them. -/
theorem skip_fetch {n : Nat} {segs rest : List Seg} {bytes : List UInt8} (hn : 0 < n)
    (h : fetch n segs = .got bytes rest) : skip n segs = skip (n - bytes.length) rest := by
  induction segs with
  | nil => cases h
  | cons seg segs ih =>
      obtain ⟨n, rfl⟩ : ∃ m, n = m + 1 := ⟨n - 1, by omega⟩
      cases seg with
      | data b bs =>
          simp only [fetch, Fetch.got.injEq] at h
          obtain ⟨rfl, rfl⟩ := h
          rw [skip, List.length_take, List.length_cons]
          by_cases hle : n ≤ bs.length
          · rw [if_pos hle, Nat.min_eq_left (by omega), Nat.sub_self, skip_zero]
          · rw [if_neg hle, Nat.min_eq_right (by omega), List.drop_eq_nil_of_le (by simp; omega)]
            congr 1
            omega
      | eintr => exact ih h
      | eof => cases h
      | error errno => cases h

end Seg

end Lib
