import Mathlib.Data.Set.Card

/-!
# Lists with distinct keys

A list whose elements carry a key is a finite map as long as no key occurs twice. Whatever the
list does to one of its elements, adding it anywhere, replacing it or taking it out, is an update
of the map at one key.
-/

namespace Vdht.Lib

variable {α κ β : Type*} [DecidableEq κ] {key : α → κ} {val : α → β}

/-- The value of the first element with the key. -/
def table (key : α → κ) (val : α → β) (l : List α) (k : κ) : Option β :=
  (l.find? fun a => key a = k).map val

theorem table_cons (a : α) (l : List α) :
    table key val (a :: l) = Function.update (table key val l) (key a) (some (val a)) := by
  funext k
  by_cases hk : key a = k
  · subst hk
    simp [table]
  · rw [Function.update_of_ne (Ne.symm hk)]
    simp [table, hk]

theorem table_eq_none {l : List α} {k : κ} :
    table key val l k = none ↔ ∀ a ∈ l, key a ≠ k := by
  simp [table]

theorem table_eq_some {l : List α} (h : (l.map key).Nodup) {k : κ} {v : β} :
    table key val l k = some v ↔ ∃ a ∈ l, key a = k ∧ val a = v := by
  induction l with
  | nil => simp [table]
  | cons a l ih =>
    obtain ⟨hnew, hrest⟩ := List.nodup_cons.mp h
    rw [table_cons]
    by_cases hk : k = key a
    · subst hk
      have hnone : ∀ b ∈ l, key b ≠ key a := fun b hb heq => hnew (heq ▸ List.mem_map_of_mem hb)
      rw [Function.update_self, List.exists_mem_cons_iff]
      constructor
      · intro hv
        exact Or.inl ⟨rfl, Option.some.inj hv⟩
      · rintro (⟨-, rfl⟩ | ⟨b, hb, heq, -⟩)
        · rfl
        · exact absurd heq (hnone b hb)
    · rw [Function.update_of_ne hk, ih hrest, List.exists_mem_cons_iff]
      exact (or_iff_right fun ha => hk ha.1.symm).symm

/-- The order of the elements does not matter. -/
theorem table_perm {l m : List α} (h : (l.map key).Nodup) (hperm : l.Perm m) :
    table key val l = table key val m := by
  funext k
  apply Option.ext
  intro v
  rw [table_eq_some h,
    table_eq_some ((hperm.map key).nodup_iff.mp h)]
  simp only [hperm.mem_iff]

/-- A map that keeps keys and values keeps the table. -/
theorem table_map {f : α → α} (hkey : ∀ a, key (f a) = key a) (hval : ∀ a, val (f a) = val a)
    (l : List α) : table key val (l.map f) = table key val l := by
  induction l with
  | nil => rfl
  | cons a l ih => rw [List.map_cons, table_cons, table_cons, ih, hkey, hval]

/-! ## Updates -/

theorem table_middle {m l : List α} {a : α} (h : ((m ++ a :: l).map key).Nodup) :
    table key val (m ++ a :: l) =
      Function.update (table key val (m ++ l)) (key a) (some (val a)) := by
  rw [table_perm h List.perm_middle, table_cons]

theorem table_replace {m l : List α} {a b : α} (h : ((m ++ a :: l).map key).Nodup)
    (hkey : key b = key a) :
    table key val (m ++ b :: l) =
      Function.update (table key val (m ++ a :: l)) (key a) (some (val b)) := by
  have hb : ((m ++ b :: l).map key).Nodup := by
    rw [List.map_append, List.map_cons] at h ⊢
    rwa [hkey]
  rw [table_middle h, table_middle hb, hkey, Function.update_idem]

theorem table_remove {m l : List α} {a : α} (h : ((m ++ a :: l).map key).Nodup) :
    table key val (m ++ l) =
      Function.update (table key val (m ++ a :: l)) (key a) none := by
  have hperm : ((a :: (m ++ l)).map key).Nodup := (List.perm_middle.map key).nodup_iff.mp h
  have hnew : key a ∉ (m ++ l).map key := (List.nodup_cons.mp hperm).1
  have hnone : table key val (m ++ l) (key a) = none :=
    table_eq_none.mpr fun b hb heq => hnew (heq ▸ List.mem_map_of_mem hb)
  rw [table_middle h, Function.update_idem, ← hnone, Function.update_eq_self]

/-! ## Size -/

/-- Every element has its own key. -/
theorem encard_table {l : List α} (h : (l.map key).Nodup) :
    {k | table key val l k ≠ none}.encard = l.length := by
  have hset : {k | table key val l k ≠ none} = ((l.map key).toFinset : Set κ) := by
    ext k
    simp [table_eq_none]
  rw [hset, Set.encard_coe_eq_coe_finsetCard, List.toFinset_card_of_nodup h, List.length_map]

/-- A new key is one more. -/
theorem encard_update_new {t : κ → Option β} {k : κ} (h : t k = none) (v : β) :
    {j | Function.update t k (some v) j ≠ none}.encard = {j | t j ≠ none}.encard + 1 := by
  have hset : {j | Function.update t k (some v) j ≠ none} = insert k {j | t j ≠ none} := by
    ext j
    by_cases hj : j = k
    · subst hj
      simp
    · simp [hj]
  have hnew : k ∉ {j | t j ≠ none} := fun hk : t k ≠ none => hk h
  rw [hset, Set.encard_insert_of_notMem hnew]

/-! ## Items that are made for the elements -/

section Made

variable {γ : Type*} {tag : γ → κ} {f g : α → List γ} {l : List α}

/-- The items made for an element are those with its key. -/
theorem filter_flatMap_key (h : (l.map key).Nodup) (hf : ∀ a ∈ l, ∀ c ∈ f a, tag c = key a) {a : α}
    (ha : a ∈ l) : (l.flatMap f).filter (fun c => tag c = key a) = f a := by
  induction l with
  | nil => cases ha
  | cons b l ih =>
    obtain ⟨hnew, hrest⟩ := List.nodup_cons.mp h
    obtain ⟨hb, hl⟩ := List.forall_mem_cons.mp hf
    rw [List.flatMap_cons, List.filter_append]
    rcases List.mem_cons.mp ha with rfl | ha
    · have hnone : (l.flatMap f).filter (fun c => tag c = key a) = [] := by
        rw [List.filter_eq_nil_iff]
        intro c hc
        obtain ⟨b, hbl, hcb⟩ := List.mem_flatMap.mp hc
        rw [hl b hbl c hcb, decide_eq_true_eq]
        exact fun heq => hnew (heq ▸ List.mem_map_of_mem hbl)
      have hall : (f a).filter (fun c => tag c = key a) = f a :=
        List.filter_eq_self.mpr fun c hc => decide_eq_true (hb c hc)
      rw [hall, hnone, List.append_nil]
    · have hnone : (f b).filter (fun c => tag c = key a) = [] := by
        rw [List.filter_eq_nil_iff]
        intro c hc
        rw [hb c hc, decide_eq_true_eq]
        exact fun heq => hnew (heq ▸ List.mem_map_of_mem ha)
      rw [hnone, List.nil_append]
      exact ih hrest hl ha

/-- Two ways to make items for the elements give the same items when they do so for each element. -/
theorem flatMap_perm_iff (h : (l.map key).Nodup) (hf : ∀ a ∈ l, ∀ c ∈ f a, tag c = key a)
    (hg : ∀ a ∈ l, ∀ c ∈ g a, tag c = key a) :
    (l.flatMap f).Perm (l.flatMap g) ↔ ∀ a ∈ l, (f a).Perm (g a) := by
  constructor
  · intro hperm a ha
    have hfilter := hperm.filter fun c => tag c = key a
    rwa [filter_flatMap_key h hf ha, filter_flatMap_key h hg ha] at hfilter
  · exact fun hall => List.Perm.flatMap_left _ hall

end Made

end Vdht.Lib
