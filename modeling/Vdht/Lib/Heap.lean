import Mathlib.Data.List.Perm.Basic

/-!
# A heap as a bag of live blocks

Blocks are numbered as they are handed out. Only a live block can be given back, so a block that is
given back twice is noticed; the bag that is left tells what was never given back. The order in
which blocks are given back does not matter, and all facts are stated up to permutation.
-/

namespace Vdht.Lib

/-- The blocks of a heap by their numbers, which are never used twice. -/
structure Heap where
  /-- the number of the next block -/
  next : Nat
  live : List Nat

namespace Heap

variable {h : Heap} {b : Nat} {bs rest : List Nat}

/-- The heap before the first allocation. -/
def empty : Heap := ⟨0, []⟩

/-- Hands out the block `h.next`. -/
def alloc (h : Heap) : Heap := ⟨h.next + 1, h.next :: h.live⟩

/-- `none` when the block is not live. -/
def free (h : Heap) (b : Nat) : Option Heap :=
  if b ∈ h.live then some { h with live := h.live.erase b } else none

/-- The live blocks are those of `bs` and of `rest`. -/
def Owns (h : Heap) (bs rest : List Nat) : Prop := h.live.Perm (bs ++ rest)

theorem owns_nil : h.Owns [] h.live := List.Perm.refl _

theorem Owns.alloc (ho : h.Owns bs rest) : h.alloc.Owns (h.next :: bs) rest := ho.cons h.next

/-- Blocks of either part may be moved. -/
theorem Owns.of_perm {bs' rest' : List Nat} (ho : h.Owns bs rest)
    (hp : (bs ++ rest).Perm (bs' ++ rest')) : h.Owns bs' rest' := ho.trans hp

/-- New blocks join those that were owned before. -/
theorem Owns.join {h' : Heap} {new : List Nat} (hnew : h'.Owns new h.live) (ho : h.Owns bs rest) :
    h'.Owns (bs ++ new) rest := by
  have hleft : h'.live.Perm (new ++ (bs ++ rest)) := hnew.trans (ho.append_left new)
  rw [← List.append_assoc] at hleft
  exact hleft.trans (List.perm_append_comm.append_right rest)

theorem Owns.free (ho : h.Owns (b :: bs) rest) : ∃ h', h.free b = some h' ∧ h'.Owns bs rest := by
  have hmem : b ∈ h.live := ho.mem_iff.mpr List.mem_cons_self
  refine ⟨{ h with live := h.live.erase b }, if_pos hmem, ?_⟩
  have herase := ho.erase b
  rwa [List.cons_append, List.erase_cons_head] at herase

end Heap

end Vdht.Lib
