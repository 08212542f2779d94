import Mathlib.Data.List.Nodup
import Mathlib.Data.List.FinRange
import Mathlib.Data.List.Perm.Basic
import Mathlib.Logic.Function.Basic

/-!
# Tables of buckets

A table gives every index a list of items. Each item has a key, a placement function assigns
every key its bucket, and no bucket holds two items of one key or more than `bound` items.
Distinctness over the whole table then follows from placement, and an operation that changes
one bucket only has to look at that bucket.
-/

namespace Vdht.Lib

variable {κ α : Type*} {n : Nat} (place : κ → Fin n) (key : α → κ) (bound : Nat)

/-- What one bucket has to satisfy. -/
structure BucketOk (i : Fin n) (l : List α) : Prop where
  placed : ∀ a ∈ l, place (key a) = i
  nodup : (l.map key).Nodup
  bounded : l.length ≤ bound

/-- All items of the table, bucket by bucket. -/
def allItems (t : Fin n → List α) : List α := (List.finRange n).flatMap t

variable {place key bound}

@[simp] theorem mem_allItems {t : Fin n → List α} {a : α} : a ∈ allItems t ↔ ∃ i, a ∈ t i := by
  simp [allItems]

/-- Permuting the buckets permutes the items of the table. -/
theorem allItems_perm {t u : Fin n → List α} (h : ∀ i, (t i).Perm (u i)) :
    (allItems t).Perm (allItems u) :=
  List.Perm.flatMap_left _ fun i _ => h i

/-- Buckets of the same lengths hold the same number of items. -/
theorem length_allItems_congr {t u : Fin n → List α} (h : ∀ i, (t i).length = (u i).length) :
    (allItems t).length = (allItems u).length := by
  rw [allItems, allItems, List.length_flatMap, List.length_flatMap]
  simp only [h]

theorem length_allItems_le {t : Fin n → List α} {sz : Nat} (h : ∀ i, (t i).length ≤ sz) :
    (allItems t).length ≤ n * sz := by
  have hlist : ∀ is : List (Fin n), (is.flatMap t).length ≤ is.length * sz := by
    intro is
    induction is with
    | nil => exact Nat.zero_le _
    | cons i is ih =>
      rw [List.flatMap_cons, List.length_append, List.length_cons, Nat.succ_mul, Nat.add_comm]
      exact Nat.add_le_add ih (h i)
  have hall := hlist (List.finRange n)
  rwa [List.length_finRange] at hall

/-- A table with one bucket in use. -/
theorem allItems_single (k : Fin n) (l : List α) :
    allItems (fun i => if i = k then l else []) = l := by
  unfold allItems
  obtain ⟨s, t, hst⟩ := List.append_of_mem (List.mem_finRange k)
  have hnodup : (s ++ k :: t).Nodup := hst ▸ List.nodup_finRange n
  have hnil : ∀ r : List (Fin n), k ∉ r → r.flatMap (fun i => if i = k then l else []) = [] := by
    intro r hr
    rw [List.flatMap_eq_nil_iff]
    intro i hi
    exact if_neg fun (h : i = k) => hr (h ▸ hi)
  obtain ⟨-, ht, hdis⟩ := List.nodup_append.mp hnodup
  have hks : k ∉ s := fun hk => hdis k hk k List.mem_cons_self rfl
  have hkt : k ∉ t := (List.nodup_cons.mp ht).1
  rw [hst, List.flatMap_append, List.flatMap_cons, hnil s hks, hnil t hkt, if_pos rfl]
  simp

namespace BucketOk

theorem nil (i : Fin n) : BucketOk place key bound i [] :=
  ⟨by simp, by simp, by simp⟩

/-- Items that keep their keys keep the bucket in order. -/
theorem of_keys {i : Fin n} {l m : List α} (h : BucketOk place key bound i l)
    (hk : m.map key = l.map key) : BucketOk place key bound i m where
  placed := by
    intro a ha
    have hmem : key a ∈ l.map key := hk ▸ List.mem_map_of_mem ha
    obtain ⟨b, hb, hba⟩ := List.mem_map.mp hmem
    rw [← hba]
    exact h.placed b hb
  nodup := by
    rw [hk]
    exact h.nodup
  bounded := by
    have hlen := congrArg List.length hk
    simp only [List.length_map] at hlen
    rw [hlen]
    exact h.bounded

theorem set {i : Fin n} {l : List α} (h : BucketOk place key bound i l) {j : Nat} {a b : α}
    (ha : l[j]? = some a) (hk : key b = key a) : BucketOk place key bound i (l.set j b) := by
  apply h.of_keys
  rw [List.map_set, hk]
  apply List.ext_getElem?
  intro k
  rw [List.getElem?_set]
  split
  · rename_i hjk
    subst hjk
    rw [List.getElem?_map, ha, List.length_map]
    split
    · rfl
    · rename_i hlen
      rw [List.getElem?_eq_none (by omega)] at ha
      cases ha
  · rfl

/-- An item may be replaced by one with a key of the bucket that is not in it yet. -/
theorem replace {i : Fin n} {l : List α} (h : BucketOk place key bound i l) {a : α}
    (hplace : place (key a) = i) (hnew : key a ∉ l.map key) (j : Nat) :
    BucketOk place key bound i (l.set j a) where
  placed := by
    intro b hb
    rcases List.mem_or_eq_of_mem_set hb with hb | rfl
    · exact h.placed b hb
    · exact hplace
  nodup := by
    rw [List.map_set]
    exact h.nodup.set hnew
  bounded := by
    rw [List.length_set]
    exact h.bounded

theorem append {i : Fin n} {l : List α} (h : BucketOk place key bound i l) {a : α}
    (hplace : place (key a) = i) (hnew : key a ∉ l.map key) (hroom : l.length < bound) :
    BucketOk place key bound i (l ++ [a]) where
  placed := by
    intro b hb
    rcases List.mem_append.mp hb with hb | hb
    · exact h.placed b hb
    · rw [List.mem_singleton.mp hb]
      exact hplace
  nodup := by
    rw [List.map_append, List.map_singleton]
    exact List.Nodup.append h.nodup (List.nodup_singleton _) (by simpa using hnew)
  bounded := by
    rw [List.length_append, List.length_singleton]
    omega

end BucketOk

/-! ## Scans for a key

An operation that puts an item into its bucket scans the bucket for the key of the item, and
picks an item to give up in case the key is not there and the bucket is full. -/

/-- What the scan of `l` from position `start` on, with the earlier choice `want`, reports: an
item with the key, or that there is none and which item it would give up. -/
def ScanReport (hit : α → Prop) (l : List α) (start : Nat) (want : Option Nat)
    (res : Bool × Option Nat) : Prop :=
  (∃ j a, res = (true, some (start + j)) ∧ l[j]? = some a ∧ hit a) ∨
    (res.1 = false ∧ (∀ a ∈ l, ¬ hit a) ∧
      (res.2 = want ∨ ∃ j a, res.2 = some (start + j) ∧ l[j]? = some a))

theorem ScanReport.nil (hit : α → Prop) (start : Nat) (want : Option Nat) :
    ScanReport hit [] start want (false, want) :=
  Or.inr ⟨rfl, by simp, Or.inl rfl⟩

theorem ScanReport.head {hit : α → Prop} {a : α} (l : List α) (start : Nat) (want : Option Nat)
    (h : hit a) : ScanReport hit (a :: l) start want (true, some start) :=
  Or.inl ⟨0, a, rfl, rfl, h⟩

theorem ScanReport.cons {hit : α → Prop} {b : α} {l : List α} {start : Nat}
    {want w : Option Nat} {res : Bool × Option Nat} (h : ScanReport hit l (start + 1) w res)
    (hne : ¬ hit b) (hw : w = want ∨ w = some start) : ScanReport hit (b :: l) start want res := by
  rcases h with ⟨j, a, rfl, hj, ha⟩ | ⟨hres, hnone, hwant⟩
  · exact Or.inl ⟨j + 1, a, by congr 2; omega, hj, ha⟩
  · refine Or.inr ⟨hres, ?_, ?_⟩
    · intro a ha
      rcases List.mem_cons.mp ha with rfl | ha
      · exact hne
      · exact hnone a ha
    · rcases hwant with hwant | ⟨j, a, hres', hj⟩
      · rcases hw with rfl | rfl
        · exact Or.inl hwant
        · exact Or.inr ⟨0, b, hwant, rfl⟩
      · exact Or.inr ⟨j + 1, a, by rw [hres']; congr 1; omega, hj⟩

/-- Keys are distinct over the whole table. -/
theorem nodup_allItems {t : Fin n → List α} (h : ∀ i, BucketOk place key bound i (t i)) :
    ((allItems t).map key).Nodup := by
  unfold allItems
  rw [List.map_flatMap, List.nodup_flatMap]
  refine ⟨fun i _ => (h i).nodup, ?_⟩
  apply (List.nodup_finRange n).imp
  intro i j hij
  show List.Disjoint _ _
  intro k hki hkj
  obtain ⟨a, ha, hak⟩ := List.mem_map.mp hki
  obtain ⟨b, hb, hbk⟩ := List.mem_map.mp hkj
  apply hij
  rw [← (h i).placed a ha, ← (h j).placed b hb, hak, hbk]

end Vdht.Lib
