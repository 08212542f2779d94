import Mathlib.Logic.Relation

/-!
# Turns that may go wrong

A program that takes turns from one position to the next, until it stops or goes wrong. A position
is safe when no position it comes to goes wrong.
-/

namespace Vdht.Lib

/-- What a turn of a loop leads to: the end, a fault, or the state before the next turn. -/
inductive Turn (σ : Type) where
  | stop
  | wrong
  | go (s : σ)

variable {σ : Type} (turn : σ → Turn σ)

/-- The loop comes from one state to the other. -/
def Comes (s s' : σ) : Prop := Relation.ReflTransGen (fun a b => turn a = .go b) s s'

/-- The loop does not fault, however many turns it takes from this state on. -/
def Safe (s : σ) : Prop := ∀ s', Comes turn s s' → turn s' ≠ .wrong

variable {turn}

theorem comes_iff {s s' : σ} :
    Comes turn s s' ↔ s = s' ∨ ∃ t, turn s = .go t ∧ Comes turn t s' := by
  rw [Comes, Relation.ReflTransGen.cases_head_iff]
  rfl

theorem safe_of_stop {s : σ} (h : turn s = .stop) : Safe turn s := by
  intro s' hs'
  rcases comes_iff.mp hs' with rfl | ⟨t, ht, -⟩
  · rw [h]
    exact nofun
  · rw [h] at ht
    cases ht

theorem not_safe_of_wrong {s : σ} (h : turn s = .wrong) : ¬ Safe turn s :=
  fun hsafe => hsafe s Relation.ReflTransGen.refl h

theorem safe_of_go {s t : σ} (h : turn s = .go t) : Safe turn s ↔ Safe turn t := by
  constructor
  · intro hsafe s' hs'
    exact hsafe s' (comes_iff.mpr (Or.inr ⟨t, h, hs'⟩))
  · intro hsafe s' hs'
    rcases comes_iff.mp hs' with rfl | ⟨t', ht', hs'⟩
    · rw [h]
      exact nofun
    · obtain rfl : t = t' := by rw [h] at ht'; exact Turn.go.inj ht'
      exact hsafe s' hs'

end Vdht.Lib
