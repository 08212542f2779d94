import Mathlib.Algebra.Order.Ring.Int
import Mathlib.Tactic.Linarith

/-!
# Signed machine integers

C gives a signed operation a meaning where its exact result is a value of the type, and a
division where the divisor is not zero. An operation is computed exactly here and then
checked; `ε` is the type of faults, and what a fault is called is left to the caller.
-/

namespace Vdht.Lib

/-- `x` is a value of the signed type with `w` bits besides the sign. -/
def InSigned (w : Nat) (x : Int) : Prop := -2 ^ w ≤ x ∧ x < 2 ^ w

instance (w : Nat) (x : Int) : Decidable (InSigned w x) := inferInstanceAs (Decidable (_ ∧ _))

theorem InSigned.of_nonneg {w : Nat} {x : Int} (hx : 0 ≤ x) (h : x < 2 ^ w) : InSigned w x := by
  have hpow : (0 : Int) ≤ 2 ^ w := pow_nonneg (by omega) w
  exact ⟨by omega, h⟩

section Checked

variable {ε : Type}

/-- The exact result `x` of an operation, where the type has it. -/
def checked (overflow : ε) (w : Nat) (x : Int) : Except ε Int :=
  if InSigned w x then .ok x else .error overflow

/-- A division of `w`-bit integers, rounded towards zero: dividing by zero and a quotient that does
not fit are errors of their own. -/
def checkedDiv (division overflow : ε) (w : Nat) (a b : Int) : Except ε Int :=
  if b = 0 then .error division else checked overflow w (a.tdiv b)

variable {overflow division : ε} {w : Nat} {a b x y : Int}

theorem checked_ok_iff : checked overflow w x = .ok y ↔ InSigned w x ∧ x = y := by
  by_cases h : InSigned w x
  · rw [checked, if_pos h, Except.ok.injEq]
    exact ⟨fun hxy => ⟨h, hxy⟩, And.right⟩
  · rw [checked, if_neg h]
    exact ⟨fun hxy => (nomatch hxy), fun hxy => absurd hxy.1 h⟩

theorem checked_ok (h : InSigned w x) : checked overflow w x = .ok x :=
  checked_ok_iff.mpr ⟨h, rfl⟩

theorem checkedDiv_ok_iff :
    checkedDiv division overflow w a b = .ok y ↔ b ≠ 0 ∧ InSigned w (a.tdiv b) ∧ a.tdiv b = y := by
  by_cases h : b = 0
  · rw [checkedDiv, if_pos h]
    exact ⟨fun hy => (nomatch hy), fun hy => absurd h hy.1⟩
  · rw [checkedDiv, if_neg h, checked_ok_iff]
    exact ⟨fun hy => ⟨h, hy⟩, And.right⟩

end Checked

/-! ## Numbers as an `int`

A conversion to `int` keeps the low 32 bits. So do the additions of a compiler that lets them wrap.
-/

/-- A wider integer as an `int`: its low 32 bits. -/
def castInt (x : Int) : Int := (Int32.ofInt x).toInt

theorem castInt_range (x : Int) : InSigned 31 (castInt x) :=
  ⟨Int32.le_toInt _, Int32.toInt_lt _⟩

theorem castInt_eq {x : Int} (h : InSigned 31 x) : castInt x = x :=
  Int32.toInt_ofInt_of_le h.1 h.2

theorem castInt_bmod (x : Int) : castInt x = x.bmod (2 ^ 32) := Int32.toInt_ofInt

theorem castInt_le {x : Int} (h : 0 ≤ x) : castInt x ≤ x := by
  rw [castInt_bmod, Int.bmod]
  split <;> omega

/-- Past the last `int` the count goes on at the first one. -/
theorem castInt_wrap {x : Int} (hlow : 2 ^ 31 ≤ x) (hhigh : x < 2 ^ 32) :
    castInt x = x - 2 ^ 32 := by
  rw [castInt_bmod, Int.bmod]
  split <;> omega

/-! ## The share of a part in a whole -/

section Share

variable {a b k : Int}

theorem share_nonneg (ha : 0 ≤ a) (hb : 0 < b) (hk : 0 ≤ k) : 0 ≤ (a * k).tdiv b :=
  Int.tdiv_nonneg (mul_nonneg ha hk) hb.le

/-- A part is at most `k` `k`-ths of the whole. -/
theorem share_le (ha : 0 ≤ a) (hab : a ≤ b) (hb : 0 < b) (hk : 0 ≤ k) : (a * k).tdiv b ≤ k := by
  rw [Int.tdiv_eq_ediv_of_nonneg (mul_nonneg ha hk)]
  refine Int.ediv_le_of_le_mul hb ?_
  rw [mul_comm]
  exact mul_le_mul_of_nonneg_left hab hk

end Share

end Vdht.Lib
