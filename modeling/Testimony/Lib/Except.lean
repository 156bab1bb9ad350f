import Mathlib.Logic.Basic

/-!
# `Testimony.Lib.Except`: calls that fail

What a call in `Except` returned, taken apart: a sequence returned a value if both of its calls
did (`bind_eq_ok`), and an error if one of them did (`bind_eq_error`). A loop over a list is a
sequence of its rounds (`mapM_ok`, `mapM_error`).
-/

set_option autoImplicit false

namespace Lib

variable {ε ε' α β : Type}

/-- A sequence succeeds exactly if both parts do. -/
theorem bind_eq_ok {x : Except ε α} {f : α → Except ε β} {b : β} :
    (x >>= f) = .ok b ↔ ∃ a, x = .ok a ∧ f a = .ok b := by
  cases x with
  | error e => simp [bind, Except.bind]
  | ok a => simp [bind, Except.bind]

/-- A sequence fails in its first part or in its second. -/
theorem bind_eq_error {x : Except ε α} {f : α → Except ε β} {e : ε} :
    (x >>= f) = .error e ↔ x = .error e ∨ ∃ a, x = .ok a ∧ f a = .error e := by
  cases x with
  | error e' => simp [bind, Except.bind]
  | ok a => simp [bind, Except.bind]

/-- A change of the error does not touch a result. -/
theorem mapError_eq_ok {f : ε → ε'} {x : Except ε α} {a : α} :
    x.mapError f = .ok a ↔ x = .ok a := by
  cases x with
  | error e => exact iff_of_false (by rintro ⟨⟩) (by rintro ⟨⟩)
  | ok a' =>
      show (Except.ok a' : Except ε' α) = .ok a ↔ _
      rw [Except.ok.injEq, Except.ok.injEq]

/-- The results of a loop over a list. -/
theorem mapM_ok {f : α → Except ε β} {l : List α} {l' : List β} (h : l.mapM f = .ok l') :
    l'.length = l.length ∧ ∀ b ∈ l', ∃ a ∈ l, f a = .ok b := by
  induction l generalizing l' with
  | nil =>
      cases h
      exact ⟨rfl, nofun⟩
  | cons a l ih =>
      rw [List.mapM_cons, bind_eq_ok] at h
      obtain ⟨b, ha, h⟩ := h
      obtain ⟨bs, hl, h⟩ := bind_eq_ok.mp h
      cases h
      obtain ⟨hlen, hmem⟩ := ih hl
      refine ⟨congrArg Nat.succ hlen, List.forall_mem_cons.mpr ⟨⟨a, List.mem_cons_self .., ha⟩, ?_⟩⟩
      intro b' hb'
      obtain ⟨a', ha', hfa'⟩ := hmem b' hb'
      exact ⟨a', List.mem_cons_of_mem _ ha', hfa'⟩

/-- What is known of each round is known of the loop. -/
theorem map_of_mapM_ok {γ : Type} {f : α → Except ε β} {g : α → γ} {k : β → γ}
    (hfg : ∀ a b, f a = .ok b → g a = k b) {l : List α} {l' : List β} (h : l.mapM f = .ok l') :
    l.map g = l'.map k := by
  induction l generalizing l' with
  | nil =>
      cases h
      rfl
  | cons a l ih =>
      rw [List.mapM_cons] at h
      obtain ⟨b, ha, h⟩ := bind_eq_ok.mp h
      obtain ⟨bs, hl, h⟩ := bind_eq_ok.mp h
      cases h
      rw [List.map_cons, List.map_cons, hfg a b ha, ih hl]

/-- A loop in which every round succeeds. -/
theorem mapM_map_ok {γ : Type} {f : α → Except ε β} {g : γ → α} {k : γ → β} {l : List γ}
    (h : ∀ c ∈ l, f (g c) = .ok (k c)) : (l.map g).mapM f = .ok (l.map k) := by
  induction l with
  | nil => rfl
  | cons c l ih =>
      obtain ⟨hc, hl⟩ := List.forall_mem_cons.mp h
      rw [List.map_cons, List.mapM_cons, hc, ih hl]
      rfl

/-- The error of a loop over a list is the error of one of its rounds. -/
theorem mapM_error {f : α → Except ε β} {l : List α} {e : ε} (h : l.mapM f = .error e) :
    ∃ a ∈ l, f a = .error e := by
  induction l with
  | nil => cases h
  | cons a l ih =>
      rw [List.mapM_cons, bind_eq_error] at h
      rcases h with ha | ⟨b, -, h⟩
      · exact ⟨a, List.mem_cons_self .., ha⟩
      · rcases bind_eq_error.mp h with hl | ⟨_, _, ⟨⟩⟩
        obtain ⟨a', ha', hfa'⟩ := ih hl
        exact ⟨a', List.mem_cons_of_mem _ ha', hfa'⟩

/-- A result of which a part is known. -/
theorem ok_of_toOption {x : Except ε α} {f : α → β} {b : β} (h : x.toOption.map f = some b) :
    ∃ a, x = .ok a ∧ f a = b := by
  cases x with
  | error e => cases h
  | ok a => exact ⟨a, rfl, Option.some.inj h⟩

end Lib
