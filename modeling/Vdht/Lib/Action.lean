import Mathlib.Order.Defs.Unbundled

/-!
# Programs that keep their state when they fault

`EStateM ε σ` programs: a fault ends the program and leaves the state as it is at that point.
A program moves along a relation when its final state is related to its initial state, however
it ends. For a reflexive and transitive relation this is closed under sequencing, so it is
enough to look at the primitive steps of a program.
-/

namespace Vdht.Lib

variable {ε σ α β : Type}

/-- The state in which the program ends, with a result or with a fault. -/
def endState : EStateM.Result ε σ α → σ
  | .ok _ s => s
  | .error _ s => s

/-- Every execution is a move along `R`. -/
def Moves (R : σ → σ → Prop) (m : EStateM ε σ α) : Prop := ∀ s, R s (endState (m s))

/-- Run a computation that neither reads nor changes the state. -/
def lift (x : Except ε α) : EStateM ε σ α := fun s =>
  match x with
  | .ok a => .ok a s
  | .error e => .error e s

@[simp] theorem lift_ok (a : α) (s : σ) : (lift (.ok a) : EStateM ε σ α) s = .ok a s := rfl

@[simp] theorem lift_error (e : ε) (s : σ) : (lift (.error e) : EStateM ε σ α) s = .error e s := rfl

theorem bind_apply (m : EStateM ε σ α) (f : α → EStateM ε σ β) (s : σ) :
    (m >>= f) s =
      match m s with
      | .ok a s' => f a s'
      | .error e s' => .error e s' := rfl

@[simp] theorem pure_apply (a : α) (s : σ) : (pure a : EStateM ε σ α) s = .ok a s := rfl

@[simp] theorem get_apply (s : σ) : (get : EStateM ε σ σ) s = .ok s s := rfl

@[simp] theorem set_apply (s s' : σ) : (set s' : EStateM ε σ PUnit) s = .ok ⟨⟩ s' := rfl

@[simp] theorem modify_apply (f : σ → σ) (s : σ) :
    (modify f : EStateM ε σ PUnit) s = .ok ⟨⟩ (f s) := rfl

theorem bind_ok_apply {m : EStateM ε σ α} {s s' : σ} {a : α} (h : m s = .ok a s')
    (f : α → EStateM ε σ β) : (m >>= f) s = f a s' := by
  rw [bind_apply, h]

theorem bind_error_apply {m : EStateM ε σ α} {s s' : σ} {e : ε} (h : m s = .error e s')
    (f : α → EStateM ε σ β) : (m >>= f) s = .error e s' := by
  rw [bind_apply, h]

/-- A program that ends with a result is a step that does, followed by a rest that does. -/
theorem bind_eq_ok {m : EStateM ε σ α} {f : α → EStateM ε σ β} {s s' : σ} {b : β} :
    (m >>= f) s = .ok b s' ↔ ∃ a s₁, m s = .ok a s₁ ∧ f a s₁ = .ok b s' := by
  rw [bind_apply]
  cases h : m s with
  | ok a s₁ =>
    refine ⟨fun hf => ⟨a, s₁, rfl, hf⟩, ?_⟩
    rintro ⟨a', s', hm, hf⟩
    cases hm
    exact hf
  | error e s₁ => simp

theorem moves_get_bind {R : σ → σ → Prop} {f : σ → EStateM ε σ β} (hf : ∀ s, Moves R (f s)) :
    Moves R (get >>= f) := fun s => hf s s

section Rules

variable {R : σ → σ → Prop} [IsPreorder σ R]

theorem moves_lift_bind {x : Except ε α} {f : α → EStateM ε σ β}
    (hf : ∀ a, x = .ok a → Moves R (f a)) : Moves R (lift x >>= f) := by
  intro s
  cases h : x with
  | ok a => exact hf a h s
  | error e => exact refl s

theorem moves_pure (a : α) : Moves R (pure a : EStateM ε σ α) := fun s => refl s

theorem moves_bind {m : EStateM ε σ α} {f : α → EStateM ε σ β} (hm : Moves R m)
    (hf : ∀ a, Moves R (f a)) : Moves R (m >>= f) := by
  intro s
  have hs := hm s
  rw [bind_apply]
  cases h : m s with
  | ok a s' =>
    rw [h] at hs
    exact IsTrans.trans _ _ _ hs (hf a s')
  | error e s' =>
    rw [h] at hs
    exact hs

/-- Sequencing from one state, where the rest may use what the first program has done. -/
theorem related_bind {m : EStateM ε σ α} {f : α → EStateM ε σ β} {s : σ}
    (hm : R s (endState (m s))) (hf : ∀ a s', m s = .ok a s' → R s' (endState (f a s'))) :
    R s (endState ((m >>= f) s)) := by
  rw [bind_apply]
  cases h : m s with
  | ok a s' =>
    rw [h] at hm
    exact IsTrans.trans _ _ _ hm (hf a s' h)
  | error e s' =>
    rw [h] at hm
    exact hm

end Rules

/-- A relation that says less. -/
theorem Moves.weaken {R Q : σ → σ → Prop} {m : EStateM ε σ α} (hm : Moves R m)
    (hRQ : ∀ s s', R s s' → Q s s') : Moves Q m := fun s => hRQ _ _ (hm s)

/-! ## Invariants -/

/-- Moves that keep an invariant. -/
def Keeps (I : σ → Prop) (s s' : σ) : Prop := I s → I s'

instance (I : σ → Prop) : IsPreorder σ (Keeps I) where
  refl _ := id
  trans _ _ _ h₁ h₂ := h₂ ∘ h₁

/-- From every state that satisfies the invariant the program ends with a result, in a state
that satisfies it. -/
def Succeeds (I : σ → Prop) (m : EStateM ε σ α) : Prop :=
  ∀ s, I s → ∃ a s', m s = .ok a s' ∧ I s'

section Total

variable {I : σ → Prop}

theorem succeeds_pure (a : α) : Succeeds I (pure a : EStateM ε σ α) :=
  fun s hs => ⟨a, s, rfl, hs⟩

theorem succeeds_get : Succeeds I (get : EStateM ε σ σ) := fun s hs => ⟨s, s, rfl, hs⟩

theorem succeeds_bind {m : EStateM ε σ α} {f : α → EStateM ε σ β} (hm : Succeeds I m)
    (hf : ∀ a, Succeeds I (f a)) : Succeeds I (m >>= f) := by
  intro s hs
  obtain ⟨a, s₁, h, hs₁⟩ := hm s hs
  rw [bind_ok_apply h]
  exact hf a s₁ hs₁

/-- A program that goes on from the state it reads. -/
theorem succeeds_get_bind {f : σ → EStateM ε σ β}
    (hf : ∀ s, I s → ∃ b s', f s s = .ok b s' ∧ I s') : Succeeds I (get >>= f) := fun s hs => hf s hs

theorem succeeds_lift_bind {x : Except ε α} {a : α} {f : α → EStateM ε σ β} (hx : x = .ok a)
    (hf : Succeeds I (f a)) : Succeeds I (lift x >>= f) := by
  subst hx
  exact hf

end Total

end Vdht.Lib
