import Mathlib.Data.Nat.Bitwise

/-!
# The top bit in which two numbers differ

`topBit a b` is the position of the highest bit that is not the same in `a` and `b`, and 0 for equal
numbers. It is symmetric, and of three numbers two cannot differ further up than both of them
differ from the third. Numbers whose top bits differ are ordered by them.
-/

namespace Vdht.Lib

/-- The position of the highest bit in which two numbers differ. -/
def topBit (a b : Nat) : Nat := (a ^^^ b).log2

theorem topBit_comm (a b : Nat) : topBit a b = topBit b a := by rw [topBit, topBit, Nat.xor_comm]

@[simp] theorem topBit_self (a : Nat) : topBit a a = 0 := by rw [topBit, Nat.xor_self, Nat.log2_zero]

theorem xor_ne_zero {a b : Nat} (h : a ≠ b) : a ^^^ b ≠ 0 := by
  intro hzero
  apply h
  rw [← Nat.xor_zero a, ← Nat.xor_self b, ← Nat.xor_assoc, hzero, Nat.zero_xor]

/-- Above the top bit the numbers agree. -/
theorem testBit_above {a b i : Nat} (hi : topBit a b < i) : a.testBit i = b.testBit i := by
  have hlt : a ^^^ b < 2 ^ i := Nat.lt_log2_self.trans_le (Nat.pow_le_pow_right (by decide) hi)
  have hbit := Nat.testBit_lt_two_pow hlt
  rw [Nat.testBit_xor] at hbit
  exact bne_eq_false_iff_eq.mp hbit

theorem testBit_top {a b : Nat} (h : a ≠ b) :
    a.testBit (topBit a b) ≠ b.testBit (topBit a b) := by
  have hbit := Nat.testBit_log2 (xor_ne_zero h)
  rw [Nat.testBit_xor] at hbit
  exact bne_iff_ne.mp hbit

theorem log2_mono {a b : Nat} (h : a ≤ b) : a.log2 ≤ b.log2 := by
  by_cases ha : a = 0
  · rw [ha, Nat.log2_zero]
    exact Nat.zero_le _
  · have hb : b ≠ 0 := by omega
    exact (Nat.le_log2 hb).mpr ((Nat.log2_self_le ha).trans h)

theorem lt_of_log2_lt {a b : Nat} (h : a.log2 < b.log2) : a < b := by
  rw [← Nat.not_le]
  exact fun hle => absurd (log2_mono hle) (Nat.not_le.mpr h)

theorem log2_xor_le (a b : Nat) : (a ^^^ b).log2 ≤ max a.log2 b.log2 := by
  have ha : a < 2 ^ (max a.log2 b.log2 + 1) :=
    Nat.lt_log2_self.trans_le (Nat.pow_le_pow_right (by decide) (by omega))
  have hb : b < 2 ^ (max a.log2 b.log2 + 1) :=
    Nat.lt_log2_self.trans_le (Nat.pow_le_pow_right (by decide) (by omega))
  have hxor := Nat.xor_lt_two_pow ha hb
  by_cases hzero : a ^^^ b = 0
  · rw [hzero, Nat.log2_zero]
    exact Nat.zero_le _
  · exact Nat.le_of_lt_succ ((Nat.log2_lt hzero).mpr hxor)

theorem topBit_triangle (a b c : Nat) : topBit a c ≤ max (topBit a b) (topBit b c) := by
  have hsplit : a ^^^ c = (a ^^^ b) ^^^ (b ^^^ c) := by
    rw [Nat.xor_assoc, ← Nat.xor_assoc b b c, Nat.xor_self, Nat.zero_xor]
  rw [topBit, hsplit]
  exact log2_xor_le _ _

/-- A number below `2 ^ (k + 1)` has its top bit at `k` or is below `2 ^ k`. -/
theorem log2_of_testBit {a k : Nat} (hlt : a < 2 ^ (k + 1)) (hbit : a.testBit k = true) :
    a.log2 = k := by
  have hle : 2 ^ k ≤ a := Nat.ge_two_pow_of_testBit hbit
  have hne : a ≠ 0 := by
    rintro rfl
    rw [Nat.zero_testBit] at hbit
    cases hbit
  exact (Nat.log2_eq_iff hne).mpr ⟨hle, hlt⟩

theorem lt_of_not_testBit {a k : Nat} (hlt : a < 2 ^ (k + 1)) (hbit : a.testBit k = false) :
    a < 2 ^ k := by
  apply Nat.lt_pow_two_of_testBit
  intro i hi
  by_cases hik : i = k
  · rw [hik, hbit]
  · exact Nat.testBit_lt_two_pow (hlt.trans_le (Nat.pow_le_pow_right (by decide) (by omega)))

end Vdht.Lib
