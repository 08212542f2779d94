import Mathlib.Data.List.Sort

/-!
# Stable sorting by a key

The stable sort of a list is the only sorted list in which the items of every key stand as they do
in the list.
-/

namespace Vdht.Lib

variable {α κ : Type*} {key : α → κ} {l m : List α} {a : α} {k : κ}

/-- The keys do not decrease along the list. -/
def SortedBy [LE κ] (key : α → κ) (l : List α) : Prop := l.Pairwise fun a b => key a ≤ key b

/-- The list sorted by key, with items of the same key in the order they had. -/
def stableSort [LE κ] [DecidableLE κ] (key : α → κ) (l : List α) : List α :=
  l.mergeSort fun a b => key a ≤ key b

/-- An item in its place in a sorted list. -/
theorem sortedBy_middle [LE κ] :
    SortedBy key (l ++ a :: m) ↔
      SortedBy key (l ++ m) ∧ (∀ b ∈ l, key b ≤ key a) ∧ ∀ b ∈ m, key a ≤ key b := by
  simp only [SortedBy, List.pairwise_append, List.pairwise_cons, List.forall_mem_cons]
  constructor
  · rintro ⟨hl, ⟨ham, hm⟩, hlm⟩
    exact ⟨⟨hl, hm, fun b hb => (hlm b hb).2⟩, fun b hb => (hlm b hb).1, ham⟩
  · rintro ⟨⟨hl, hm, hlm⟩, hla, ham⟩
    exact ⟨hl, ⟨ham, hm⟩, fun b hb => ⟨hla b hb, hlm b hb⟩⟩

section Sorting

variable [LE κ] [DecidableLE κ] [Std.IsLinearOrder κ]

theorem le_trans_bool (a b c : α) (hab : decide (key a ≤ key b) = true)
    (hbc : decide (key b ≤ key c) = true) : decide (key a ≤ key c) = true := by
  rw [decide_eq_true_eq] at hab hbc ⊢
  exact Std.le_trans hab hbc

theorem le_total_bool (a b : α) :
    (decide (key a ≤ key b) || decide (key b ≤ key a)) = true := by
  rw [Bool.or_eq_true, decide_eq_true_eq, decide_eq_true_eq]
  exact Std.le_total

theorem sortedBy_stableSort (l : List α) : SortedBy key (stableSort key l) := by
  have h := @List.pairwise_mergeSort α (fun a b => key a ≤ key b) le_trans_bool le_total_bool l
  exact h.imp of_decide_eq_true

end Sorting

/-! ## The items with one key -/

variable [DecidableEq κ]

/-- The items of one key, in their order. -/
def withKey (key : α → κ) (k : κ) (l : List α) : List α := l.filter fun a => key a = k

@[simp] theorem withKey_append : withKey key k (l ++ m) = withKey key k l ++ withKey key k m :=
  List.filter_append ..

theorem withKey_cons_self : withKey key (key a) (a :: l) = a :: withKey key (key a) l :=
  List.filter_cons_of_pos (by simp)

theorem withKey_cons_of_ne (h : key a ≠ k) : withKey key k (a :: l) = withKey key k l :=
  List.filter_cons_of_neg (by simpa using h)

theorem withKey_eq_nil (h : ∀ b ∈ l, key b ≠ k) : withKey key k l = [] := by
  rw [withKey, List.filter_eq_nil_iff]
  simpa using h

theorem key_of_mem_withKey (h : a ∈ withKey key k l) : key a = k := by
  simpa using (List.mem_filter.mp h).2

theorem mem_of_withKey (h : ∀ k, withKey key k l = withKey key k m) (ha : a ∈ l) : a ∈ m := by
  have hmem : a ∈ withKey key (key a) l := List.mem_filter.mpr ⟨ha, by simp⟩
  rw [h] at hmem
  exact List.mem_of_mem_filter hmem

variable [LE κ] [Std.IsLinearOrder κ]

/-- Sorted lists that agree on every key are equal. -/
theorem eq_of_withKey (hl : SortedBy key l) (hm : SortedBy key m)
    (h : ∀ k, withKey key k l = withKey key k m) : l = m := by
  induction l generalizing m with
  | nil =>
    cases m with
    | nil => rfl
    | cons b m => exact absurd (mem_of_withKey (fun k => (h k).symm) List.mem_cons_self) (by simp)
  | cons a l ih =>
    cases m with
    | nil => exact absurd (mem_of_withKey h List.mem_cons_self) (by simp)
    | cons b m =>
      obtain ⟨hal, hl'⟩ := List.pairwise_cons.mp hl
      obtain ⟨hbm, hm'⟩ := List.pairwise_cons.mp hm
      have hab : key a ≤ key b := by
        have hb : b ∈ a :: l := mem_of_withKey (fun k => (h k).symm) List.mem_cons_self
        rcases List.mem_cons.mp hb with rfl | hb
        · exact Std.le_refl _
        · exact hal b hb
      have hba : key b ≤ key a := by
        have ha : a ∈ b :: m := mem_of_withKey h List.mem_cons_self
        rcases List.mem_cons.mp ha with rfl | ha
        · exact Std.le_refl _
        · exact hbm a ha
      have hkey : key a = key b := Std.le_antisymm hab hba
      have hhead := h (key a)
      rw [withKey_cons_self, hkey, withKey_cons_self] at hhead
      obtain ⟨rfl, -⟩ := List.cons_eq_cons.mp hhead
      refine congrArg (a :: ·) (ih hl' hm' fun k => ?_)
      have hk := h k
      by_cases hak : key a = k
      · subst hak
        rw [withKey_cons_self, withKey_cons_self] at hk
        exact (List.cons_eq_cons.mp hk).2
      · rwa [withKey_cons_of_ne hak, withKey_cons_of_ne hak] at hk

variable [DecidableLE κ]

/-- The sort does not change the order of items with one key. -/
theorem withKey_stableSort (k : κ) (l : List α) :
    withKey key k (stableSort key l) = withKey key k l := by
  have hsorted : (withKey key k l).Pairwise fun a b => decide (key a ≤ key b) = true := by
    rw [List.pairwise_iff_forall_sublist]
    intro a b hab
    have ha : key a = k := key_of_mem_withKey (hab.subset (by simp))
    have hb : key b = k := key_of_mem_withKey (hab.subset (by simp))
    rw [ha, hb, decide_eq_true_eq]
    exact Std.le_refl _
  have hsub : (withKey key k l).Sublist (stableSort key l) :=
    List.sublist_mergeSort le_trans_bool le_total_bool hsorted List.filter_sublist
  have hfilter := hsub.filter fun a => key a = k
  have hself : (withKey key k l).filter (fun a => key a = k) = withKey key k l := by
    rw [withKey, List.filter_filter]
    simp only [Bool.and_self]
  rw [hself] at hfilter
  have hperm : (stableSort key l).Perm l := List.mergeSort_perm _ _
  exact (hfilter.eq_of_length (hperm.filter _).length_eq.symm).symm

/-- A sorted list that agrees with `l` on every key is the stable sort of `l`. -/
theorem eq_stableSort (hm : SortedBy key m) (h : ∀ k, withKey key k m = withKey key k l) :
    m = stableSort key l :=
  eq_of_withKey hm (sortedBy_stableSort l) fun k => (h k).trans (withKey_stableSort k l).symm

theorem stableSort_of_sorted (h : SortedBy key l) : stableSort key l = l :=
  (eq_stableSort h fun _ => rfl).symm

end Vdht.Lib
