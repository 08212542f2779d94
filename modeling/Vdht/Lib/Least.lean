import Mathlib.Data.List.Induction
import Mathlib.Order.Lattice

/-!
# Least elements of a list

A list may have several elements of least measure. A loop that replaces its choice by a smaller
element keeps the first of them; one that also replaces it by an equal element keeps the last.
A loop that starts without a choice needs a bound that the first choice has to undercut.
-/

namespace Vdht.Lib

variable {α ι : Type*} [LinearOrder ι] {f : α → ι} {bound : ι} {l : List α} {a b : α}

/-- The first element of least measure. -/
def FirstLeast (f : α → ι) (l : List α) (a : α) : Prop :=
  ∃ front back, l = front ++ a :: back ∧ (∀ b ∈ front, f a < f b) ∧ ∀ b ∈ back, f a ≤ f b

/-- The last element of least measure. -/
def LastLeast (f : α → ι) (l : List α) (a : α) : Prop :=
  ∃ front back, l = front ++ a :: back ∧ (∀ b ∈ front, f a ≤ f b) ∧ ∀ b ∈ back, f a < f b

/-! ## The last one -/

namespace LastLeast

theorem mem (h : LastLeast f l a) : a ∈ l := by
  obtain ⟨front, back, rfl, -, -⟩ := h
  exact List.mem_append_right _ List.mem_cons_self

theorem le (h : LastLeast f l a) : ∀ b ∈ l, f a ≤ f b := by
  obtain ⟨front, back, rfl, hfront, hback⟩ := h
  intro b hb
  rcases List.mem_append.mp hb with hb | hb
  · exact hfront b hb
  · rcases List.mem_cons.mp hb with rfl | hb
    · exact le_rfl
    · exact le_of_lt (hback b hb)

theorem singleton (f : α → ι) (a : α) : LastLeast f [a] a := ⟨[], [], rfl, by simp, by simp⟩

theorem concat (h : LastLeast f l a) (b : α) :
    LastLeast f (l ++ [b]) (if f b > f a then a else b) := by
  split
  · rename_i hlt
    obtain ⟨front, back, rfl, hfront, hback⟩ := h
    refine ⟨front, back ++ [b], by simp, hfront, fun c hc => ?_⟩
    rcases List.mem_append.mp hc with hc | hc
    · exact hback c hc
    · rwa [List.mem_singleton.mp hc]
  · rename_i hle
    exact ⟨l, [], rfl, fun c hc => le_trans (le_of_not_gt hle) (h.le c hc), by simp⟩

/-- A loop that replaces its choice unless the element is greater. -/
theorem foldl (f : α → ι) (a : α) (l : List α) :
    LastLeast f (a :: l) (l.foldl (fun old neo => if f neo > f old then old else neo) a) := by
  induction l using List.reverseRecOn with
  | nil => exact .singleton f a
  | append_singleton l b ih =>
    rw [List.foldl_append, ← List.cons_append]
    exact ih.concat b

/-- The least measure does not depend on the order. -/
theorem perm {m : List α} (ha : LastLeast f l a) (hb : LastLeast f m b) (h : l.Perm m) :
    f a = f b :=
  le_antisymm (ha.le b (h.mem_iff.mpr hb.mem)) (hb.le a (h.mem_iff.mp ha.mem))

end LastLeast

/-! ## The first one below a bound -/

theorem FirstLeast.mem (h : FirstLeast f l a) : a ∈ l := by
  obtain ⟨front, back, rfl, -, -⟩ := h
  exact List.mem_append_right _ List.mem_cons_self

theorem FirstLeast.le (h : FirstLeast f l a) : ∀ b ∈ l, f a ≤ f b := by
  obtain ⟨front, back, rfl, hfront, hback⟩ := h
  intro b hb
  rcases List.mem_append.mp hb with hb | hb
  · exact le_of_lt (hfront b hb)
  · rcases List.mem_cons.mp hb with rfl | hb
    · exact le_rfl
    · exact hback b hb

/-- There is at most one first element of least measure. -/
theorem FirstLeast.unique (ha : FirstLeast f l a) (hb : FirstLeast f l b) : a = b := by
  obtain ⟨front, back, rfl, hfront, hback⟩ := ha
  obtain ⟨front', back', heq, hfront', hback'⟩ := hb
  rcases List.append_eq_append_iff.mp heq with ⟨m, rfl, hm⟩ | ⟨m, rfl, hm⟩
  · cases m with
    | nil => exact (List.cons.inj hm).1
    | cons c m =>
      obtain ⟨rfl, rfl⟩ := List.cons.inj hm
      have hlt := hfront' a (by simp)
      exact absurd (hback b (by simp)) (not_le_of_gt hlt)
  · cases m with
    | nil => exact (List.cons.inj hm).1.symm
    | cons c m =>
      obtain ⟨rfl, rfl⟩ := List.cons.inj hm
      have hlt := hfront b (by simp)
      exact absurd (hback' a (by simp)) (not_le_of_gt hlt)

/-- The loop that starts without a choice. -/
def leastBelow (f : α → ι) (bound : ι) (l : List α) : Option α :=
  l.foldl (fun choice b => if f b < choice.elim bound f then some b else choice) none

/-- What the choice is: nothing is below the bound, or it is the first least element and below. -/
inductive LeastBelow (f : α → ι) (bound : ι) (l : List α) : Option α → Prop where
  | unfound (h : ∀ b ∈ l, bound ≤ f b) : LeastBelow f bound l none
  | found (a : α) (h : FirstLeast f l a) (hlt : f a < bound) : LeastBelow f bound l (some a)

theorem LeastBelow.concat {choice : Option α} (h : LeastBelow f bound l choice) (b : α) :
    LeastBelow f bound (l ++ [b]) (if f b < choice.elim bound f then some b else choice) := by
  cases h with
  | unfound h =>
    rw [Option.elim_none]
    split
    · rename_i hlt
      exact .found b ⟨l, [], rfl, fun c hc => lt_of_lt_of_le hlt (h c hc), by simp⟩ hlt
    · rename_i hle
      refine .unfound fun c hc => ?_
      rcases List.mem_append.mp hc with hc | hc
      · exact h c hc
      · rw [List.mem_singleton.mp hc]
        exact le_of_not_gt hle
  | found a h hbound =>
    rw [Option.elim_some]
    split
    · rename_i hlt
      refine .found b ⟨l, [], rfl, fun c hc => lt_of_lt_of_le hlt (h.le c hc), by simp⟩ ?_
      exact lt_trans hlt hbound
    · rename_i hle
      obtain ⟨front, back, rfl, hfront, hback⟩ := h
      refine .found a ⟨front, back ++ [b], by simp, hfront, fun c hc => ?_⟩ hbound
      rcases List.mem_append.mp hc with hc | hc
      · exact hback c hc
      · rw [List.mem_singleton.mp hc]
        exact le_of_not_gt hle

theorem leastBelow_concat (f : α → ι) (bound : ι) (l : List α) (b : α) :
    leastBelow f bound (l ++ [b]) =
      if f b < (leastBelow f bound l).elim bound f then some b else leastBelow f bound l := by
  rw [leastBelow, List.foldl_append]
  rfl

theorem leastBelow_spec (f : α → ι) (bound : ι) (l : List α) :
    LeastBelow f bound l (leastBelow f bound l) := by
  induction l using List.reverseRecOn with
  | nil => exact .unfound (by simp)
  | append_singleton l b ih =>
    rw [leastBelow_concat]
    exact ih.concat b

theorem firstLeast_of_leastBelow (h : leastBelow f bound l = some a) :
    FirstLeast f l a ∧ f a < bound := by
  have hspec := leastBelow_spec f bound l
  rw [h] at hspec
  cases hspec with
  | found _ hleast hlt => exact ⟨hleast, hlt⟩

theorem leastBelow_eq_none : leastBelow f bound l = none ↔ ∀ b ∈ l, bound ≤ f b := by
  constructor
  · intro h
    have hspec := leastBelow_spec f bound l
    rw [h] at hspec
    cases hspec with
    | unfound hlow => exact hlow
  · intro hlow
    cases h : leastBelow f bound l with
    | none => rfl
    | some a =>
      obtain ⟨hleast, hlt⟩ := firstLeast_of_leastBelow h
      exact absurd (hlow a hleast.mem) (not_le_of_gt hlt)

/-! ## Positions -/

theorem zipIdx_split {front back : List (α × Nat)} {i : Nat}
    (h : l.zipIdx = front ++ (a, i) :: back) :
    l = front.map Prod.fst ++ a :: back.map Prod.fst ∧ i = front.length := by
  constructor
  · have hfst := congrArg (List.map Prod.fst) h
    rwa [List.zipIdx_map_fst, List.map_append, List.map_cons] at hfst
  · have hget : l.zipIdx[front.length]? = some (a, i) := by
      rw [h, List.getElem?_append_right (Nat.le_refl _), Nat.sub_self]
      rfl
    rw [List.getElem?_zipIdx, Nat.zero_add] at hget
    obtain ⟨b, -, hb⟩ := Option.map_eq_some_iff.mp hget
    exact (congrArg Prod.snd hb).symm

/-- A loop over the positions finds the first least element at its position. -/
theorem FirstLeast.position {i : Nat}
    (h : FirstLeast (fun x : α × Nat => f x.1) l.zipIdx (a, i)) :
    ∃ front back, l = front ++ a :: back ∧ i = front.length ∧ (∀ b ∈ front, f a < f b) ∧
      ∀ b ∈ back, f a ≤ f b := by
  obtain ⟨front, back, hsplit, hfront, hback⟩ := h
  obtain ⟨hl, hi⟩ := zipIdx_split hsplit
  refine ⟨_, _, hl, by rw [hi, List.length_map], fun b hb => ?_, fun b hb => ?_⟩
  · obtain ⟨x, hx, rfl⟩ := List.mem_map.mp hb
    exact hfront x hx
  · obtain ⟨x, hx, rfl⟩ := List.mem_map.mp hb
    exact hback x hx

end Vdht.Lib
