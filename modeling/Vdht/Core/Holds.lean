import Vdht.Core.Cleanup

/-!
# Nodes that can be released

A node that `be_free` can handle owns its blocks: `Holds` says which, and for which tree the node
stands. An array ends in a NULL, or in an entry whose value is NULL; what is behind it does not
matter. `Holds.freed` shows that all blocks of such a node are released.
-/

namespace Vdht.Core

open Lib

/-! ## Complete nodes -/

mutual

/-- `r` is a node for the tree with the blocks `bs`. -/
inductive Holds : BeRef → BeNode → List Nat → Prop where
  | str {id sid : Nat} {s : BeStr} : Holds (.str id (.block sid s)) (.str s) [sid, id]
  | int {id : Nat} {i : Int32} : Holds (.int id i) (.int i) [id]
  | list {id a : Nat} {rs tail : List BeRef} {l : List BeNode} {bs : List Nat}
      (h : HoldsItems rs l bs) : Holds (.list id (some a) (rs ++ .null :: tail)) (.list l) (a :: id :: bs)
  | dict {id a : Nat} {es tail : List (StrRef × BeRef)} {key : StrRef}
      {d : List (BeStr × BeNode)} {bs : List Nat} (h : HoldsEntries es d bs) :
      Holds (.dict id (some a) (es ++ (key, .null) :: tail)) (.dict d) (a :: id :: bs)

/-- The slots of a list hold the trees, and these are all the blocks below them. -/
inductive HoldsItems : List BeRef → List BeNode → List Nat → Prop where
  | nil : HoldsItems [] [] []
  | cons {r : BeRef} {rs : List BeRef} {t : BeNode} {l : List BeNode} {b bs : List Nat}
      (hr : Holds r t b) (h : HoldsItems rs l bs) : HoldsItems (r :: rs) (t :: l) (b ++ bs)

/-- The pairs of a dictionary hold the keys and the trees; the blocks of the keys are counted in. -/
inductive HoldsEntries : List (StrRef × BeRef) → List (BeStr × BeNode) → List Nat → Prop where
  | nil : HoldsEntries [] [] []
  | cons {kid : Nat} {key : BeStr} {r : BeRef} {es : List (StrRef × BeRef)} {t : BeNode}
      {d : List (BeStr × BeNode)} {b bs : List Nat} (hr : Holds r t b)
      (h : HoldsEntries es d bs) :
      HoldsEntries ((.block kid key, r) :: es) ((key, t) :: d) (kid :: (b ++ bs))

end

variable {r : BeRef} {t : BeNode} {rs : List BeRef} {l : List BeNode}
  {es : List (StrRef × BeRef)} {d : List (BeStr × BeNode)} {b bs rest : List Nat} {h : Heap}

theorem Holds.not_null (hr : Holds r t bs) : r.isNull = false := by
  cases hr <;> rfl

theorem HoldsItems.concat {rs : List BeRef} {l : List BeNode} {bs : List Nat}
    (hs : HoldsItems rs l bs) (hr : Holds r t b) : HoldsItems (rs ++ [r]) (l ++ [t]) (bs ++ b) :=
  match hs with
  | .nil => by
    have hone := HoldsItems.cons hr .nil
    rwa [List.append_nil] at hone
  | .cons hr' hs => by
    rw [List.append_assoc]
    exact .cons hr' (hs.concat hr)

theorem HoldsEntries.concat {es : List (StrRef × BeRef)} {d : List (BeStr × BeNode)}
    {bs : List Nat} {kid : Nat} {key : BeStr} (hs : HoldsEntries es d bs) (hr : Holds r t b) :
    HoldsEntries (es ++ [(.block kid key, r)]) (d ++ [(key, t)]) (bs ++ kid :: b) :=
  match hs with
  | .nil => by
    have hone := @HoldsEntries.cons kid key _ _ _ _ _ _ hr .nil
    rwa [List.append_nil] at hone
  | .cons hr' hs => by
    rw [List.cons_append, List.cons_append, List.cons_append, List.append_assoc]
    exact .cons hr' (hs.concat hr)

/-! ## Releasing a complete node -/

theorem release_owned {id : Nat} (ho : h.Owns (id :: bs) rest) :
    ∃ h', release id h = .ok h' ∧ h'.Owns bs rest := by
  obtain ⟨h', hfree, ho'⟩ := ho.free
  refine ⟨h', ?_, ho'⟩
  rw [release, hfree]

/-- The blocks of a list are released behind those of its items. -/
theorem owns_items_first {a id : Nat} (ho : h.Owns (a :: id :: bs) rest) :
    h.Owns bs (a :: id :: rest) := by
  apply ho.of_perm
  have hmid : (bs ++ [a, id] ++ rest).Perm ([a, id] ++ bs ++ rest) :=
    List.perm_append_comm.append_right rest
  simpa using hmid.symm

theorem owns_append : h.Owns (b ++ bs) rest ↔ h.Owns b (bs ++ rest) := by
  rw [Heap.Owns, Heap.Owns, List.append_assoc]

/-- The array and the node behind what the loop has released. -/
theorem release_array {a id : Nat} (ho : h.Owns [] (a :: id :: rest)) :
    ∃ h', (release a h >>= release id) = .ok h' ∧ h'.Owns [] rest := by
  obtain ⟨h₁, ha, ho₁⟩ := @release_owned [id] rest h a ho
  obtain ⟨h₂, hid, ho₂⟩ := @release_owned [] rest h₁ id ho₁
  refine ⟨h₂, ?_, ho₂⟩
  rw [ha, ok_bind, hid]

mutual

theorem Holds.freed {r : BeRef} {t : BeNode} {bs : List Nat} (hr : Holds r t bs) :
    ∀ (h : Heap) (rest : List Nat), h.Owns bs rest →
      ∃ h', beFree r h = .ok h' ∧ h'.Owns [] rest :=
  match hr with
  | .str => fun h rest ho => by
    obtain ⟨h₁, hs, ho⟩ := release_owned ho
    obtain ⟨h₂, hid, ho⟩ := release_owned ho
    refine ⟨h₂, ?_, ho⟩
    rw [beFree, freeStr, hs, ok_bind, hid]
  | .int => fun _ _ ho => release_owned ho
  | .list hs => fun h rest ho => by
    obtain ⟨h₁, hslots, ho₁⟩ := hs.freed h _ (owns_items_first ho)
    obtain ⟨h₂, harray, ho₂⟩ := release_array ho₁
    refine ⟨h₂, ?_, ho₂⟩
    rw [beFree, hslots]
    exact harray
  | .dict hs => fun h rest ho => by
    obtain ⟨h₁, hentries, ho₁⟩ := hs.freed h _ (owns_items_first ho)
    obtain ⟨h₂, harray, ho₂⟩ := release_array ho₁
    refine ⟨h₂, ?_, ho₂⟩
    rw [beFree, hentries]
    exact harray

/-- The loop over a list releases the items in front of `q` and goes on with `q`. -/
theorem HoldsItems.freed {rs : List BeRef} {l : List BeNode} {bs : List Nat}
    (hs : HoldsItems rs l bs) : ∀ (h : Heap) (rest : List Nat), h.Owns bs rest →
      ∃ h', (∀ q, freeSlots (rs ++ q) h = freeSlots q h') ∧ h'.Owns [] rest :=
  match hs with
  | .nil => fun h _ ho => ⟨h, fun _ => rfl, ho⟩
  | .cons hr hs => fun h rest ho => by
    obtain ⟨h₁, hfree, ho₁⟩ := hr.freed h _ (owns_append.mp ho)
    obtain ⟨h₂, hrest, ho₂⟩ := hs.freed h₁ rest ho₁
    refine ⟨h₂, fun q => ?_, ho₂⟩
    rw [List.cons_append, freeSlots, hr.not_null, hfree, ok_bind, hrest]
    rfl

theorem HoldsEntries.freed {es : List (StrRef × BeRef)} {d : List (BeStr × BeNode)}
    {bs : List Nat} (hs : HoldsEntries es d bs) :
    ∀ (h : Heap) (rest : List Nat), h.Owns bs rest →
      ∃ h', (∀ q, freeEntries (es ++ q) h = freeEntries q h') ∧ h'.Owns [] rest :=
  match hs with
  | .nil => fun h _ ho => ⟨h, fun _ => rfl, ho⟩
  | .cons hr hs => fun h rest ho => by
    obtain ⟨h₁, hkey, ho₁⟩ := release_owned ho
    obtain ⟨h₂, hfree, ho₂⟩ := hr.freed h₁ _ (owns_append.mp ho₁)
    obtain ⟨h₃, hrest, ho₃⟩ := hs.freed h₂ rest ho₂
    refine ⟨h₃, fun q => ?_, ho₃⟩
    rw [List.cons_append, freeEntries, hr.not_null, freeEntry, freeStr, hkey, ok_bind, hfree,
      ok_bind, hrest]
    rfl

end

/-! ## The arrays -/

section Arrays

variable {α : Type} {xs tail : List α} {fill : Nat → α}

/-- Two slots are there behind the items, and what is in them was there or is new. -/
theorem regrow_two (ht : tail.length ≤ 1) :
    ∃ x y, regrow (xs ++ tail) (xs.length + 2) fill = xs ++ [x, y] ∧
      (x ∈ tail ∨ ∃ j, x = fill j) ∧ (y ∈ tail ∨ ∃ j, y = fill j) := by
  cases tail with
  | nil =>
    refine ⟨fill xs.length, fill (xs.length + 1), ?_, Or.inr ⟨_, rfl⟩, Or.inr ⟨_, rfl⟩⟩
    have hcount : xs.length + 2 - (xs ++ []).length = 2 := by simp
    rw [regrow, hcount, List.append_nil, List.take_of_length_le (by omega)]
    rfl
  | cons x tail =>
    have hnil : tail = [] := by
      rw [List.length_cons] at ht
      exact List.length_eq_zero_iff.mp (by omega)
    subst hnil
    refine ⟨x, fill (xs.length + 1), ?_, Or.inl List.mem_cons_self, Or.inr ⟨_, rfl⟩⟩
    have hlen : (xs ++ [x]).length = xs.length + 1 := by simp
    have hcount : xs.length + 2 - (xs.length + 1) = 1 := by omega
    rw [regrow, hlen, hcount, List.take_of_length_le (by omega), List.append_assoc]
    rfl

end Arrays

theorem setKey_behind {e : StrRef × BeRef} {tail : List (StrRef × BeRef)} (key : StrRef) :
    setKey (es ++ e :: tail) es.length key = .ok (es ++ (key, e.2) :: tail) := by
  rw [setKey, getSlot_behind, ok_bind, setSlot_behind]

theorem setVal_behind {e : StrRef × BeRef} {tail : List (StrRef × BeRef)} (val : BeRef) :
    setVal (es ++ e :: tail) es.length val = .ok (es ++ (e.1, val) :: tail) := by
  rw [setVal, getSlot_behind, ok_bind, setSlot_behind]

theorem reallocBlock_owned {array : Option Nat} (ho : h.Owns (array.toList ++ bs) rest) :
    ∃ a h', reallocBlock array h = .ok (a, h') ∧ h'.Owns (a :: bs) rest := by
  cases array with
  | none => exact ⟨h.next, h.alloc, rfl, ho.alloc⟩
  | some a =>
    obtain ⟨h₁, hrel, ho₁⟩ := release_owned ho
    refine ⟨h₁.next, h₁.alloc, ?_, ho₁.alloc⟩
    rw [reallocBlock, hrel, ok_bind]

end Vdht.Core
