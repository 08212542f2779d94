import Mathlib.Data.List.InsertIdx
import Mathlib.Data.List.Perm.Basic
import Mathlib.Data.List.Sort

/-!
# Arrays kept sorted by a comparator

`vsorted_array_add`, the array taken as a list: a new item goes in front of the first item the
comparator does not place before it. The comparator is called as `cmp item new`.

`rank` adds items one by one. Where the comparator is a three-way comparison on the items,
the result is sorted, and when it also tells distinct items apart the result does not depend
on the order in which they were added. A comparator that is a total preorder still leaves the items
best first, and among items it does not tell apart the last one added comes first.
-/

namespace Vdht.Utils

variable {α : Type} (cmp : α → α → Int)

/-- `vsorted_array_add`: an item goes before the first one that does not compare less than it, and
to the end if there is none. -/
def vsortedArrayAdd (l : List α) (new : α) : List α :=
  match l with
  | [] => [new]
  | item :: l => if cmp item new ≥ 0 then new :: item :: l else item :: vsortedArrayAdd l new

/-- The array after the items of `l` were added in turn. -/
def rank (l : List α) : List α := l.foldl (vsortedArrayAdd cmp) []

/-- On the items of `l` the comparator is a three-way comparison. -/
structure ThreeWay (l : List α) : Prop where
  antisymm : ∀ a ∈ l, ∀ b ∈ l, cmp a b = -cmp b a
  trans : ∀ a ∈ l, ∀ b ∈ l, ∀ c ∈ l, cmp a b ≤ 0 → cmp b c ≤ 0 → cmp a c ≤ 0

/-- The comparator is a three-way comparison and tells distinct items apart. -/
structure TotalOrderOn (l : List α) : Prop extends ThreeWay cmp l where
  eq_of_zero : ∀ a ∈ l, ∀ b ∈ l, cmp a b = 0 → a = b

variable {cmp}

theorem vsortedArrayAdd_perm (l : List α) (new : α) :
    (vsortedArrayAdd cmp l new).Perm (new :: l) := by
  induction l with
  | nil => exact List.Perm.refl _
  | cons item l ih =>
    unfold vsortedArrayAdd
    split
    · exact List.Perm.refl _
    · exact (ih.cons item).trans (List.Perm.swap new item l)

theorem foldl_add_perm (l acc : List α) :
    (l.foldl (vsortedArrayAdd cmp) acc).Perm (acc ++ l) := by
  induction l generalizing acc with
  | nil => simp
  | cons a l ih =>
    have hadd : (vsortedArrayAdd cmp acc a ++ l).Perm (acc ++ a :: l) :=
      ((vsortedArrayAdd_perm acc a).append_right l).trans List.perm_middle.symm
    exact (ih (vsortedArrayAdd cmp acc a)).trans hadd

/-- Nothing is lost and nothing is added twice. -/
theorem rank_perm (l : List α) : (rank cmp l).Perm l := foldl_add_perm l []

theorem ThreeWay.of_subset {l m : List α} (h : ThreeWay cmp l) (hm : ∀ a ∈ m, a ∈ l) :
    ThreeWay cmp m :=
  ⟨fun a ha b hb => h.antisymm a (hm a ha) b (hm b hb),
    fun a ha b hb c hc => h.trans a (hm a ha) b (hm b hb) c (hm c hc)⟩

/-- Adding to a sorted array keeps it sorted. -/
theorem vsortedArrayAdd_sorted {l : List α} {new : α} (h : ThreeWay cmp (new :: l))
    (hl : l.Pairwise fun a b => cmp a b ≤ 0) :
    (vsortedArrayAdd cmp l new).Pairwise fun a b => cmp a b ≤ 0 := by
  induction l with
  | nil => exact List.pairwise_singleton _ _
  | cons item l ih =>
    obtain ⟨hitem, hrest⟩ := List.pairwise_cons.mp hl
    unfold vsortedArrayAdd
    split
    · rename_i hcmp
      have hnew : cmp new item ≤ 0 := by
        rw [h.antisymm new (by simp) item (by simp)]
        omega
      refine List.pairwise_cons.mpr ⟨?_, hl⟩
      intro b hb
      rcases List.mem_cons.mp hb with rfl | hb
      · exact hnew
      · exact h.trans new (by simp) item (by simp) b (by simp [hb]) hnew (hitem b hb)
    · rename_i hcmp
      have hsub : ThreeWay cmp (new :: l) := by
        apply h.of_subset
        intro a ha
        rcases List.mem_cons.mp ha with rfl | ha
        · simp
        · simp [ha]
      refine List.pairwise_cons.mpr ⟨?_, ih hsub hrest⟩
      intro b hb
      rcases List.mem_cons.mp ((vsortedArrayAdd_perm l new).mem_iff.mp hb) with rfl | hb
      · omega
      · exact hitem b hb

theorem foldl_add_sorted {l acc : List α} (h : ThreeWay cmp (acc ++ l))
    (hacc : acc.Pairwise fun a b => cmp a b ≤ 0) :
    (l.foldl (vsortedArrayAdd cmp) acc).Pairwise fun a b => cmp a b ≤ 0 := by
  induction l generalizing acc with
  | nil => exact hacc
  | cons a l ih =>
    apply ih
    · apply h.of_subset
      intro b hb
      rcases List.mem_append.mp hb with hb | hb
      · rcases List.mem_cons.mp ((vsortedArrayAdd_perm acc a).mem_iff.mp hb) with rfl | hb
        · simp
        · simp [hb]
      · simp [hb]
    · apply vsortedArrayAdd_sorted _ hacc
      apply h.of_subset
      intro b hb
      rcases List.mem_cons.mp hb with rfl | hb
      · simp
      · simp [hb]

theorem rank_sorted {l : List α} (h : ThreeWay cmp l) :
    (rank cmp l).Pairwise fun a b => cmp a b ≤ 0 :=
  foldl_add_sorted h List.Pairwise.nil

/-- The order in which the items are added does not matter. -/
theorem rank_eq_of_perm {l m : List α} (h : TotalOrderOn cmp l) (hm : m.Perm l) :
    rank cmp m = rank cmp l := by
  have hmem : ∀ a, a ∈ rank cmp m → a ∈ l := fun a ha =>
    hm.mem_iff.mp ((rank_perm m).mem_iff.mp ha)
  have hm3 : ThreeWay cmp m := h.toThreeWay.of_subset fun a ha => hm.mem_iff.mp ha
  apply List.Perm.eq_of_pairwise _ (rank_sorted hm3) (rank_sorted h.toThreeWay)
  · exact (rank_perm m).trans (hm.trans (rank_perm l).symm)
  · intro a b ha hb hab hba
    have hb' : b ∈ l := (rank_perm l).mem_iff.mp hb
    apply h.eq_of_zero a (hmem a ha) b hb'
    have hanti := h.antisymm a (hmem a ha) b hb'
    omega

/-! ## Comparators that are total preorders -/

/-- Where `cmp a b ≥ 0` says that `b` is at least as good as `a`. -/
structure TotalPreorder (cmp : α → α → Int) : Prop where
  total : ∀ a b, cmp a b ≥ 0 ∨ cmp b a ≥ 0
  trans : ∀ a b c, cmp a b ≥ 0 → cmp b c ≥ 0 → cmp a c ≥ 0

section Adding

variable (cmp : α → α → Int)

/-- `varray_add` on the list of the items. -/
def listAdd (l : List α) (idx : Nat) (new : α) : List α × Int :=
  if idx ≥ l.length then (l, -1) else (l.insertIdx idx new, 0)

/-- `varray_add_tail` on the list of the items. -/
def listAddTail (l : List α) (new : α) : List α × Int := (l ++ [new], 0)

/-- `vsorted_array_add` with its scan and the two operations it chooses from. -/
def vsortedArrayScanAdd (l : List α) (new : α) : List α × Int :=
  let i := l.findIdx fun item => cmp item new ≥ 0
  if i < l.length then listAdd l i new else listAddTail l new

theorem vsortedArrayScanAdd_eq (l : List α) (new : α) :
    vsortedArrayScanAdd cmp l new = (vsortedArrayAdd cmp l new, 0) := by
  induction l with
  | nil => rfl
  | cons item l ih =>
    rw [vsortedArrayScanAdd] at ih ⊢
    rw [vsortedArrayAdd]
    by_cases hcmp : cmp item new ≥ 0
    · have hidx : (item :: l).findIdx (fun item => cmp item new ≥ 0) = 0 := by
        rw [List.findIdx_cons, decide_eq_true hcmp, cond_true]
      simp only [hidx, if_pos hcmp]
      rfl
    · have hidx : (item :: l).findIdx (fun item => cmp item new ≥ 0) =
          l.findIdx (fun item => cmp item new ≥ 0) + 1 := by
        rw [List.findIdx_cons, decide_eq_false hcmp, cond_false]
      simp only [hidx, if_neg hcmp, List.length_cons, Nat.add_lt_add_iff_right] at ih ⊢
      -- the scan goes on behind `item` as it would without it
      by_cases hfound : l.findIdx (fun item => cmp item new ≥ 0) < l.length
      · rw [if_pos hfound, listAdd, if_neg (Nat.not_le_of_lt hfound)] at ih
        rw [if_pos hfound, listAdd, if_neg (by rw [List.length_cons]; omega),
          List.insertIdx_succ_cons, ← (Prod.mk.inj ih).1]
      · rw [if_neg hfound, listAddTail] at ih
        rw [if_neg hfound, listAddTail, List.cons_append, ← (Prod.mk.inj ih).1]

/-- The array after the items were added one by one. -/
def addedItems (items : List α) : List α :=
  items.foldl (fun l new => (vsortedArrayScanAdd cmp l new).1) []

/-- The comparator does not tell the items apart. -/
def Tied (a b : α) : Prop := cmp a b ≥ 0 ∧ cmp b a ≥ 0

instance (a b : α) : Decidable (Tied cmp a b) := inferInstanceAs (Decidable (_ ∧ _))

/-- `a` is at least as good as `b`. -/
def NoWorse (a b : α) : Prop := cmp b a ≥ 0

instance : DecidableRel (NoWorse cmp) := fun a b => inferInstanceAs (Decidable (cmp b a ≥ 0))

theorem vsortedArrayAdd_eq_orderedInsert (l : List α) (new : α) :
    vsortedArrayAdd cmp l new = l.orderedInsert (NoWorse cmp) new := by
  induction l with
  | nil => rfl
  | cons item l ih =>
    rw [vsortedArrayAdd, List.orderedInsert_cons, ih]
    rfl

/-- Items that are added one by one are sorted by insertion, the last one first. -/
theorem addedItems_eq (items : List α) :
    addedItems cmp items = items.reverse.insertionSort (NoWorse cmp) := by
  rw [addedItems, List.insertionSort, List.foldr_reverse]
  congr 1
  funext l new
  rw [vsortedArrayScanAdd_eq, vsortedArrayAdd_eq_orderedInsert]

end Adding

theorem TotalPreorder.total_noWorse (h : TotalPreorder cmp) : Std.Total (NoWorse cmp) :=
  ⟨fun a b => h.total b a⟩

theorem TotalPreorder.trans_noWorse (h : TotalPreorder cmp) : IsTrans α (NoWorse cmp) :=
  ⟨fun _ _ _ hab hbc => h.trans _ _ _ hbc hab⟩

/-- Items that are tied with one item are tied. -/
theorem TotalPreorder.noWorse_of_tied (h : TotalPreorder cmp) {x a b : α} (ha : Tied cmp x a)
    (hb : Tied cmp x b) : NoWorse cmp a b :=
  h.trans b x a hb.2 ha.1

/-- Tied items are found in the order opposite to the one they were added in. -/
theorem filter_addedItems (h : TotalPreorder cmp) (items : List α) (x : α) :
    (addedItems cmp items).filter (fun a => Tied cmp x a) =
      (items.filter fun a => Tied cmp x a).reverse := by
  rw [addedItems_eq, ← List.filter_reverse]
  have hties : (items.reverse.filter fun a => Tied cmp x a).Pairwise (NoWorse cmp) := by
    refine List.pairwise_of_forall_mem_list fun a ha b hb => ?_
    have hxa := of_decide_eq_true (List.mem_filter.mp ha).2
    have hxb := of_decide_eq_true (List.mem_filter.mp hb).2
    exact h.noWorse_of_tied hxa hxb
  have hsub := (List.sublist_insertionSort hties List.filter_sublist).filter fun a => Tied cmp x a
  simp only [List.filter_filter, Bool.and_self] at hsub
  have hperm := (List.perm_insertionSort (NoWorse cmp) items.reverse).filter fun a => Tied cmp x a
  exact (hsub.eq_of_length hperm.length_eq.symm).symm

/-- For every comparison that is a total preorder and whatever items are added one after the other
to an empty array: they are all there, best first, and among items that compare equal the one that
was added later comes earlier. -/
theorem added_best_first (h : TotalPreorder cmp) (items : List α) :
    (addedItems cmp items).Perm items ∧ (addedItems cmp items).Pairwise (NoWorse cmp) ∧
      ∀ x, (addedItems cmp items).filter (fun a => Tied cmp x a) =
        (items.filter fun a => Tied cmp x a).reverse := by
  have := h.total_noWorse
  have := h.trans_noWorse
  refine ⟨?_, ?_, filter_addedItems h items⟩
  · rw [addedItems_eq]
    exact (List.perm_insertionSort _ _).trans (List.reverse_perm items)
  · rw [addedItems_eq]
    exact List.pairwise_insertionSort _ _

/-- Items with a number and a name, better with a greater number. -/
theorem added_best_first_pairs :
    let cmp := fun a b : Nat × Nat => (b.1 : Int) - a.1
    addedItems cmp [(1, 0), (2, 0), (1, 1)] = [(2, 0), (1, 1), (1, 0)] ∧
      (addedItems cmp [(1, 0), (2, 0), (1, 1)]).Pairwise (NoWorse cmp) := by
  intro cmp
  have hcmp : TotalPreorder cmp :=
    ⟨fun a b => by simp only [cmp]; omega, fun a b c => by simp only [cmp]; omega⟩
  exact ⟨rfl, (added_best_first hcmp _).2.1⟩

end Vdht.Utils
