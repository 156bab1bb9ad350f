import Mathlib.Data.List.Basic
import Mathlib.Data.List.TakeWhile

/-!
# `Testimony.Lib.Words`: cutting a text into words

A scanner that looks for separators, given as the strings that count as one, and returns what stands
between them. It has a bounded buffer: a word whose length, with the separator behind it, does not
fit ends the scan, and what was found so far is the result.

`Spells seps items text` says that `text` consists of the words in `items`, with separators between
them, in front and behind. `scan_spells` is the specification of the scanner: it returns the words
up to the first one that does not fit.
-/

set_option autoImplicit false

namespace Lib

section
variable {α : Type} [DecidableEq α]

/-- The separator at the front of a text. -/
def sepAt (seps : List (List α)) (text : List α) : Option (List α) :=
  seps.find? fun s => s.isPrefixOf text

/-- The words of a text. The arguments before the text are how much of a separator is still to be
skipped, and what has been read of a word. The end of the text counts as a separator of length
one. -/
def scan (seps : List (List α)) (fits : Nat → Bool) : Nat → List α → List α → List (List α)
  | _, word, [] => if word = [] then [] else if fits (word.length + 1) then [word] else []
  | skip + 1, word, _ :: text => scan seps fits skip word text
  | 0, word, a :: text =>
      match sepAt seps (a :: text) with
      | none => scan seps fits 0 (word ++ [a]) text
      | some s =>
          if word = [] then scan seps fits (s.length - 1) [] text
          else if fits (word.length + s.length) then word :: scan seps fits (s.length - 1) [] text
          else []

/-- A text with its words. Each comes with the length of the separator behind it. -/
inductive Spells (seps : List (List α)) : List (List α × Nat) → List α → Prop
  | nil : Spells seps [] []
  | gap {s text : List α} {items : List (List α × Nat)} (hs : s ∈ seps)
      (h : Spells seps items text) : Spells seps items (s ++ text)
  | last (w : List α) : Spells seps [(w, 1)] w
  | word {s text : List α} {items : List (List α × Nat)} (w : List α) (hs : s ∈ seps)
      (h : Spells seps items text) : Spells seps ((w, s.length) :: items) (w ++ (s ++ text))

/-- No separator is empty, and none is the beginning of another. -/
structure Separators (seps : List (List α)) : Prop where
  ne_nil : ∀ s ∈ seps, s ≠ []
  free : ∀ s ∈ seps, ∀ s' ∈ seps, s <+: s' → s = s'

/-- The condition is one on each separator of the list. -/
instance (seps : List (List α)) : Decidable (Separators seps) :=
  decidable_of_iff ((∀ s ∈ seps, s ≠ []) ∧ ∀ s ∈ seps, ∀ s' ∈ seps, s <+: s' → s = s')
    ⟨fun h => ⟨h.1, h.2⟩, fun h => ⟨h.1, h.2⟩⟩

/-- No separator begins inside the word. -/
structure IsWord (seps : List (List α)) (w : List α) : Prop where
  ne_nil : w ≠ []
  plain : ∀ a ∈ w, ∀ s ∈ seps, s.head? ≠ some a

end

section
variable {α : Type} {seps : List (List α)}

/-- A text put together from words, each with a separator behind it. -/
theorem Spells.words {items : List (List α × Nat)} {text : List α}
    (h : Spells seps items text) (l : List (List α × List α)) (hl : ∀ p ∈ l, p.2 ∈ seps) :
    Spells seps (l.map (fun p => (p.1, p.2.length)) ++ items)
      (l.flatMap (fun p => p.1 ++ p.2) ++ text) := by
  induction l with
  | nil => exact h
  | cons p l ih =>
      obtain ⟨hp, hl⟩ := List.forall_mem_cons.mp hl
      simpa only [List.map_cons, List.cons_append, List.flatMap_cons, List.append_assoc] using
        Spells.word p.1 hp (ih hl)

/-- The separators behind the words are separators, or the end. -/
theorem Spells.width {items : List (List α × Nat)} {text : List α} (h : Spells seps items text) :
    ∀ it ∈ items, it.2 = 1 ∨ ∃ s ∈ seps, it.2 = s.length := by
  induction h with
  | nil => simp
  | gap _ _ ih => exact ih
  | last w => simp
  | word w hs _ ih => exact List.forall_mem_cons.mpr ⟨.inr ⟨_, hs, rfl⟩, ih⟩

end

section
variable {α : Type} [DecidableEq α] {seps : List (List α)} {fits : Nat → Bool}

/-- A separator is recognised. -/
theorem Separators.sepAt_append (hseps : Separators seps) {s : List α} (hs : s ∈ seps)
    (text : List α) : sepAt seps (s ++ text) = some s := by
  unfold sepAt
  cases hfound : seps.find? fun s' => s'.isPrefixOf (s ++ text) with
  | none =>
      have hno := List.find?_eq_none.mp hfound s hs
      simp at hno
  | some s' =>
      have hmem := List.mem_of_find?_eq_some hfound
      have hprefix := List.find?_some hfound
      have hpre : s' <+: s ++ text := List.isPrefixOf_iff_prefix.mp hprefix
      rcases List.prefix_or_prefix_of_prefix hpre (List.prefix_append s text) with h | h
      · rw [hseps.free s' hmem s hs h]
      · rw [hseps.free s hs s' hmem h]

/-- Inside a word there is none. -/
theorem sepAt_plain (hseps : Separators seps) {a : α} (ha : ∀ s ∈ seps, s.head? ≠ some a)
    (text : List α) : sepAt seps (a :: text) = none := by
  refine List.find?_eq_none.mpr fun s hs hpre => ?_
  have hprefix : s <+: a :: text := List.isPrefixOf_iff_prefix.mp hpre
  rcases List.prefix_cons_iff.mp hprefix with rfl | ⟨t, rfl, -⟩
  · exact hseps.ne_nil [] hs rfl
  · exact ha _ hs rfl

/-- The rest of a separator that is being skipped is not looked at. -/
theorem scan_skip (s word text : List α) :
    scan seps fits s.length word (s ++ text) = scan seps fits 0 word text := by
  induction s with
  | nil => rfl
  | cons a s ih =>
      rw [List.length_cons, List.cons_append, scan]
      exact ih

/-- The scan collects a word. -/
theorem scan_plain (hseps : Separators seps) {w : List α}
    (hw : ∀ a ∈ w, ∀ s ∈ seps, s.head? ≠ some a) (word text : List α) :
    scan seps fits 0 word (w ++ text) = scan seps fits 0 (word ++ w) text := by
  induction w generalizing word with
  | nil => rw [List.append_nil, List.nil_append]
  | cons a w ih =>
      obtain ⟨ha, hw⟩ := List.forall_mem_cons.mp hw
      rw [List.cons_append, scan, sepAt_plain hseps ha]
      show scan seps fits 0 (word ++ [a]) (w ++ text) = _
      rw [ih hw, List.append_assoc, List.singleton_append]

/-- A separator ends the word, if there is one. -/
theorem scan_sep (hseps : Separators seps) {s : List α} (hs : s ∈ seps) (word text : List α) :
    scan seps fits 0 word (s ++ text) =
      if word = [] then scan seps fits 0 [] text
      else if fits (word.length + s.length) then word :: scan seps fits 0 [] text
      else [] := by
  have hfound := hseps.sepAt_append hs text
  cases s with
  | nil => exact absurd rfl (hseps.ne_nil [] hs)
  | cons a s =>
      rw [List.cons_append] at hfound ⊢
      rw [scan, hfound]
      simp only [List.length_cons, Nat.add_sub_cancel, scan_skip]

/-- The scan returns the words up to the first one that does not fit. -/
theorem scan_spells (hseps : Separators seps) {items : List (List α × Nat)} {text : List α}
    (h : Spells seps items text) (hwords : ∀ it ∈ items, IsWord seps it.1) :
    scan seps fits 0 [] text =
      (items.takeWhile fun it => fits (it.1.length + it.2)).map Prod.fst := by
  induction h with
  | nil => rfl
  | gap hs _ ih =>
      rw [scan_sep hseps hs, if_pos rfl]
      exact ih hwords
  | last w =>
      have hw := hwords (w, 1) (List.mem_singleton_self _)
      have hscan : scan seps fits 0 [] (w ++ []) = _ := scan_plain hseps hw.plain [] []
      rw [List.append_nil] at hscan
      rw [hscan, List.nil_append, scan, if_neg hw.ne_nil, List.takeWhile_cons]
      split <;> rfl
  | word w hs _ ih =>
      obtain ⟨hw, hrest⟩ := List.forall_mem_cons.mp hwords
      rw [scan_plain hseps hw.plain, List.nil_append, scan_sep hseps hs, if_neg hw.ne_nil,
        ih hrest, List.takeWhile_cons]
      split <;> rfl

/-- A smaller buffer only makes the scan end earlier. -/
theorem scan_isPrefix (fits : Nat → Bool) (text : List α) : ∀ (skip : Nat) (word : List α),
    scan seps fits skip word text <+: scan seps (fun _ => true) skip word text := by
  induction text with
  | nil =>
      intro skip word
      simp only [scan]
      split
      · exact List.prefix_refl _
      · split
        · exact List.prefix_refl _
        · exact List.nil_prefix
  | cons a text ih =>
      intro skip word
      cases skip with
      | succ skip => exact ih skip word
      | zero =>
          simp only [scan]
          split
          · exact ih 0 _
          · split
            · exact ih _ []
            · split
              · exact List.prefix_cons_inj _ |>.mpr (ih _ [])
              · exact List.nil_prefix

end

end Lib
