import Mathlib.Data.List.Basic

/-!
# Absorbing a stream block by block

A stream is collected in a buffer; when the buffer holds a whole block, a function takes the block
into a chaining value and the buffer is emptied. Element by element this is the fold of that
function over the blocks of the stream.
-/

namespace Vdht.Lib

variable {α κ : Type}

/-- The first `k` blocks of `n` elements. -/
def blocks (n : Nat) : Nat → List α → List (List α)
  | 0, _ => []
  | k + 1, l => l.take n :: blocks n k (l.drop n)

theorem blocks_append {n k : Nat} {l : List α} (hl : l.length = n * k) (b : List α)
    (hb : b.length = n) : blocks n (k + 1) (l ++ b) = blocks n k l ++ [b] := by
  induction k generalizing l with
  | zero =>
    obtain rfl : l = [] := List.eq_nil_of_length_eq_zero (by simpa using hl)
    rw [List.nil_append, blocks, blocks, blocks, List.take_of_length_le (Nat.le_of_eq hb)]
    rfl
  | succ k ih =>
    have hlen : n ≤ l.length := by rw [hl, Nat.mul_succ]; omega
    have hdrop : (l.drop n).length = n * k := by
      rw [List.length_drop, hl, Nat.mul_succ]
      omega
    rw [blocks, List.take_append_of_le_length hlen, List.drop_append_of_le_length hlen, ih hdrop,
      blocks, List.cons_append]

variable (n : Nat) (compress : κ → List α → κ)

/-- One more element: the chaining value and the buffer. -/
def absorb (s : κ × List α) (x : α) : κ × List α :=
  if s.2.length + 1 = n then (compress s.1 (s.2 ++ [x]), []) else (s.1, s.2 ++ [x])

variable {n compress}

theorem absorb_short {h : κ} {buf l : List α} (hlen : (buf ++ l).length < n) :
    l.foldl (absorb n compress) (h, buf) = (h, buf ++ l) := by
  induction l generalizing buf with
  | nil => rw [List.append_nil, List.foldl_nil]
  | cons x l ih =>
    rw [List.append_cons] at hlen ⊢
    have hne : buf.length + 1 ≠ n := by
      rw [List.length_append, List.length_append, List.length_singleton] at hlen
      omega
    rw [List.foldl_cons, absorb, if_neg hne, ih hlen]

/-- The rest of a block. -/
theorem absorb_block {h : κ} {buf l : List α} (hne : l ≠ []) (hlen : (buf ++ l).length = n) :
    l.foldl (absorb n compress) (h, buf) = (compress h (buf ++ l), []) := by
  obtain ⟨init, x, rfl⟩ := (List.eq_nil_or_concat' l).resolve_left hne
  have hshort : (buf ++ init).length < n := by
    rw [← List.append_assoc, List.length_append, List.length_singleton] at hlen
    omega
  have hfull : (buf ++ init).length + 1 = n := by
    rw [← List.append_assoc, List.length_append, List.length_singleton] at hlen
    exact hlen
  rw [List.foldl_append, absorb_short hshort, List.foldl_cons, List.foldl_nil, absorb,
    if_pos hfull, List.append_assoc]

theorem length_absorb {l : List α} {s : κ × List α} (hs : s.2.length < n) :
    (l.foldl (absorb n compress) s).2.length = (s.2.length + l.length) % n := by
  induction l generalizing s with
  | nil => exact (Nat.mod_eq_of_lt hs).symm
  | cons x l ih =>
    rw [List.foldl_cons, absorb]
    by_cases hfull : s.2.length + 1 = n
    · have hnil : ([] : List α).length < n := Nat.zero_lt_of_lt hs
      rw [if_pos hfull, ih hnil, List.length_nil, Nat.zero_add,
        List.length_cons, Nat.add_comm l.length 1, ← Nat.add_assoc, hfull, Nat.add_mod_left]
    · have hlen : (s.2 ++ [x]).length = s.2.length + 1 := by
        rw [List.length_append, List.length_singleton]
      rw [if_neg hfull, ih (by show (s.2 ++ [x]).length < n; omega), hlen, List.length_cons,
        Nat.add_assoc, Nat.add_comm 1]

/-- A stream of whole blocks. -/
theorem absorb_blocks {k : Nat} {l : List α} (hpos : 0 < n) (hl : l.length = n * k) (h : κ) :
    l.foldl (absorb n compress) (h, []) = ((blocks n k l).foldl compress h, []) := by
  induction k generalizing l h with
  | zero =>
    obtain rfl : l = [] := List.eq_nil_of_length_eq_zero (by simpa using hl)
    rfl
  | succ k ih =>
    rw [Nat.mul_succ] at hl
    have htake : (l.take n).length = n := by
      rw [List.length_take]
      omega
    have hne : l.take n ≠ [] := by
      intro hnil
      rw [hnil, List.length_nil] at htake
      omega
    have hdrop : (l.drop n).length = n * k := by
      rw [List.length_drop]
      omega
    conv_lhs => rw [← List.take_append_drop n l]
    rw [List.foldl_append, absorb_block hne (by rw [List.nil_append]; exact htake),
      List.nil_append, ih hdrop, blocks, List.foldl_cons]

end Vdht.Lib
