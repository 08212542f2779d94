/-!
# Loops with fuel

A loop that takes one unit of fuel for every turn is a function of the fuel and its state. When
each turn makes the state smaller, the size of the state is enough fuel. `Goes` says that a loop
in one state comes to another one, `Ends` that it ends with a result; neither mentions how much
fuel is spent.
-/

namespace Vdht.Lib

variable {σ τ β γ : Type} (f : Nat → σ → β) (size : σ → Nat)

/-- With enough fuel for `s` the loop comes to `s'` and has enough fuel for it left. -/
def Goes (s s' : σ) : Prop := ∀ n, size s < n → ∃ m, size s' < m ∧ f n s = f m s'

/-- With enough fuel for `s` the loop ends with `b`. -/
def Ends (s : σ) (b : β) : Prop := ∀ n, size s < n → f n s = b

variable {f size}

theorem Goes.refl (s : σ) : Goes f size s s := fun n hn => ⟨n, hn, rfl⟩

theorem Goes.trans {s₁ s₂ s₃ : σ} (h : Goes f size s₁ s₂) (h' : Goes f size s₂ s₃) :
    Goes f size s₁ s₃ := by
  intro n hn
  obtain ⟨m, hm, heq⟩ := h n hn
  obtain ⟨k, hk, heq'⟩ := h' m hm
  exact ⟨k, hk, heq.trans heq'⟩

theorem Goes.ends {s s' : σ} {b : β} (h : Goes f size s s') (h' : Ends f size s' b) :
    Ends f size s b := by
  intro n hn
  obtain ⟨m, hm, heq⟩ := h n hn
  exact heq.trans (h' m hm)

/-- One turn. -/
theorem goes_of_turn {s s' : σ} (hsize : size s' < size s)
    (h : ∀ n, size s ≤ n → f (n + 1) s = f n s') : Goes f size s s' := by
  intro n hn
  cases n with
  | zero => exact absurd hn (Nat.not_lt_zero _)
  | succ n => exact ⟨n, by omega, h n (by omega)⟩

/-- The last turn. -/
theorem ends_of_turn {s : σ} {b : β} (h : ∀ n, size s ≤ n → f (n + 1) s = b) :
    Ends f size s b := by
  intro n hn
  cases n with
  | zero => exact absurd hn (Nat.not_lt_zero _)
  | succ n => exact h n (by omega)

/-- A loop that is called inside a turn ends with the fuel that is left there. -/
theorem Ends.call {g : Nat → τ → γ} {size' : τ → Nat} {t : τ} {b : γ} (h : Ends g size' t b)
    {n k : Nat} (hn : k ≤ n) (ht : size' t < k) : g n t = b :=
  h n (Nat.lt_of_lt_of_le ht hn)

end Vdht.Lib
