import Testimony.Lib.Socket

/-!
# `Testimony.Lib.Reader`: programs that read from a stream

A program in `EStateM` whose state is a source of bytes. `Reads f bytes a` says that `f` takes
exactly `bytes` off the source, however they are cut, and returns `a`. `Steps f bytes g` says
that it takes `bytes` and then goes on as `g` does. `Halts w f bytes` says that `f` does not
get by with `bytes`: it stops, and if the source only waits for more it stops with `w`.

They are closed under sequencing (`Reads.bind`, `Steps.trans`, `Halts.bind`), so a parser's
specification is put together from those of its calls. `Reads.fueled` and
`Halts.fueled` are for a loop whose number of rounds is bounded by the bytes there are.

`Returns f P` says less and of any source: if `f` returns something, it has the property `P`.
-/

set_option autoImplicit false

namespace Lib

/-- A state one can read bytes from: what is still to be read, and what stands behind it. -/
class Source (σ : Type) where
  pending : σ → List UInt8
  ending : σ → End

/-- The kernel's side of a socket is a source. -/
instance : Source (List Seg) where
  pending := Seg.pending
  ending := Seg.ending

section
variable {ε σ α β : Type} {f : EStateM ε σ α} {g : α → EStateM ε σ β} {s s' : σ}

/-- After a first part that returns, the second part runs on what is left. -/
theorem bind_ok {a : α} (h : f s = .ok a s') : (f >>= g) s = g a s' := by
  show EStateM.bind f g s = g a s'
  rw [EStateM.bind, h]

/-- After a first part that fails, the second part does not run. -/
theorem bind_error {e : ε} (h : f s = .error e s') : (f >>= g) s = .error e s' := by
  show EStateM.bind f g s = .error e s'
  rw [EStateM.bind, h]

/-- `get` returns the state and leaves it as it is. -/
theorem get_apply (s : σ) : (get : EStateM ε σ σ) s = .ok s s := rfl

/-- `set` replaces the state. -/
theorem set_apply (s s' : σ) : (set s' : EStateM ε σ PUnit) s = .ok ⟨⟩ s' := rfl

/-- Whatever `f` returns has the property `P`. -/
def Returns (f : EStateM ε σ α) (P : α → Prop) : Prop := ∀ s a s', f s = .ok a s' → P a

/-- A constant returns what it is. -/
theorem Returns.pure {P : α → Prop} {a : α} (h : P a) : Returns (pure a : EStateM ε σ α) P := by
  rintro s _ _ ⟨⟩
  exact h

/-- What fails returns nothing, so every condition holds of it. -/
theorem Returns.throw {P : α → Prop} (e : ε) : Returns (throw e : EStateM ε σ α) P := by
  rintro s _ _ ⟨⟩

/-- A sequence meets the condition of its second part, for each value that the first can return. -/
theorem Returns.bind {P : α → Prop} {Q : β → Prop} (hf : Returns f P)
    (hg : ∀ a, P a → Returns (g a) Q) : Returns (f >>= g) Q := by
  intro s b s' h
  cases hfs : f s with
  | ok a s₁ =>
      rw [bind_ok hfs] at h
      exact hg a (hf s a s₁ hfs) s₁ b s' h
  | error e s₁ =>
      rw [bind_error hfs] at h
      cases h

/-- Nothing is known of what the first call returns. -/
theorem Returns.of_bind {Q : β → Prop} (hg : ∀ a, Returns (g a) Q) : Returns (f >>= g) Q :=
  Returns.bind (P := fun _ => True) (fun _ _ _ _ => trivial) fun a _ => hg a

/-- A branch meets a condition if both its sides do, each under its own case. -/
theorem Returns.ite {P : α → Prop} {c : Prop} [Decidable c] {f f' : EStateM ε σ α}
    (h : c → Returns f P) (h' : ¬ c → Returns f' P) : Returns (if c then f else f') P := by
  split
  · exact h ‹_›
  · exact h' ‹_›

variable [Source σ]

/-- `f` takes `bytes` off the source and returns `a`. -/
def Reads (f : EStateM ε σ α) (bytes : List UInt8) (a : α) : Prop :=
  ∀ (s : σ) (rest : List UInt8), Source.pending s = bytes ++ rest →
    ∃ s', f s = .ok a s' ∧ Source.pending s' = rest ∧ Source.ending s' = Source.ending s

/-- `f` takes `bytes` off the source and goes on as `g`. -/
def Steps (f : EStateM ε σ α) (bytes : List UInt8) (g : EStateM ε σ α) : Prop :=
  ∀ (s : σ) (rest : List UInt8), Source.pending s = bytes ++ rest →
    ∃ s', f s = g s' ∧ Source.pending s' = rest ∧ Source.ending s' = Source.ending s

/-- `f` wants more than `bytes`. What is there it has read. -/
def Halts (w : ε) (f : EStateM ε σ α) (bytes : List UInt8) : Prop :=
  ∀ s : σ, Source.pending s = bytes →
    ∃ e s', f s = .error e s' ∧ (Source.ending s = .blocked → e = w) ∧
      Source.pending s' = [] ∧ Source.ending s' = Source.ending s

/-- A constant reads nothing. -/
theorem Reads.pure (a : α) : Reads (pure a : EStateM ε σ α) [] a :=
  fun s _ h => ⟨s, rfl, h, rfl⟩

/-- The first call of a sequence steps to the rest of it. -/
theorem Reads.steps {p : List UInt8} {a : α} (hf : Reads f p a) : Steps (f >>= g) p (g a) := by
  intro s rest h
  obtain ⟨s', hf', hpending, hending⟩ := hf s rest h
  exact ⟨s', bind_ok hf', hpending, hending⟩

/-- Without reading anything a reader is where it is. -/
theorem Steps.refl (f : EStateM ε σ α) : Steps f [] f :=
  fun s _ h => ⟨s, rfl, h, rfl⟩

/-- Two stretches of a stream are read one after the other. -/
theorem Steps.trans {f₁ f₂ f₃ : EStateM ε σ α} {p q : List UInt8} (h : Steps f₁ p f₂)
    (h' : Steps f₂ q f₃) : Steps f₁ (p ++ q) f₃ := by
  intro s rest hs
  rw [List.append_assoc] at hs
  obtain ⟨s₁, heq, hpending, hending⟩ := h s _ hs
  obtain ⟨s₂, heq₂, hpending₂, hending₂⟩ := h' s₁ rest hpending
  exact ⟨s₂, heq.trans heq₂, hpending₂, hending₂.trans hending⟩

/-- A reader that comes to another one on the way returns what that one returns. -/
theorem Steps.reads {f₁ f₂ : EStateM ε σ α} {p q : List UInt8} {a : α} (h : Steps f₁ p f₂)
    (h' : Reads f₂ q a) : Reads f₁ (p ++ q) a := by
  intro s rest hs
  rw [List.append_assoc] at hs
  obtain ⟨s₁, heq, hpending, hending⟩ := h s _ hs
  obtain ⟨s₂, heq₂, hpending₂, hending₂⟩ := h' s₁ rest hpending
  exact ⟨s₂, heq.trans heq₂, hpending₂, hending₂.trans hending⟩

/-- A reader that comes to another one on the way stops where that one stops. -/
theorem Steps.halts {f₁ f₂ : EStateM ε σ α} {w : ε} {p q : List UInt8} (h : Steps f₁ p f₂)
    (h' : Halts w f₂ q) : Halts w f₁ (p ++ q) := by
  intro s hs
  obtain ⟨s₁, heq, hpending, hending⟩ := h s q hs
  obtain ⟨e, s₂, heq₂, he, hpending₂, hending₂⟩ := h' s₁ hpending
  exact ⟨e, s₂, heq.trans heq₂, fun hb => he (hending.trans hb), hpending₂,
    hending₂.trans hending⟩

/-- A sequence reads what its parts read, one after the other. -/
theorem Reads.bind {p q : List UInt8} {a : α} {b : β} (hf : Reads f p a) (hg : Reads (g a) q b) :
    Reads (f >>= g) (p ++ q) b :=
  hf.steps.reads hg

/-- A last call that reads nothing more. -/
theorem Reads.bind_pure {p : List UInt8} {a : α} {b : β} (hf : Reads f p a)
    (hg : g a = Pure.pure b) : Reads (f >>= g) p b := by
  have := hf.bind (hg ▸ Reads.pure b)
  rwa [List.append_nil] at this

/-- A sequence stops in its first part if that part does. -/
theorem Halts.bind {w : ε} {p : List UInt8} (hf : Halts w f p) : Halts w (f >>= g) p := by
  intro s h
  obtain ⟨e, s₁, hf₁, he⟩ := hf s h
  exact ⟨e, s₁, bind_error hf₁, he⟩

/-- A sequence stops in its second part, behind what the first one has read. -/
theorem Reads.bind_halts {w : ε} {p q : List UInt8} {a : α} (hf : Reads f p a)
    (hg : Halts w (g a) q) : Halts w (f >>= g) (p ++ q) :=
  hf.steps.halts hg

/-- A loop that is given a round for each byte reads what it reads with any number of rounds
that is large enough. -/
theorem Reads.fueled (loop : Nat → EStateM ε σ α) {p : List UInt8} {a : α}
    (h : ∀ rounds, p.length < rounds → Reads (loop rounds) p a) :
    Reads (get >>= fun s => loop ((Source.pending s).length + 1)) p a := by
  intro s rest hs
  have hlen : p.length < (Source.pending s).length + 1 := by
    rw [hs, List.length_append]
    omega
  exact h _ hlen s rest hs

/-- A loop stops as well if its rounds are counted by the bytes that are there. -/
theorem Halts.fueled (loop : Nat → EStateM ε σ α) {w : ε} {p : List UInt8}
    (h : ∀ rounds, p.length < rounds → Halts w (loop rounds) p) :
    Halts w (get >>= fun s => loop ((Source.pending s).length + 1)) p := by
  intro s hs
  exact h _ (by rw [hs]; omega) s hs

end

end Lib
