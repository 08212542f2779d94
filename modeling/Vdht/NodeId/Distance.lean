import Mathlib.Order.Defs.Unbundled
import Vdht.Lib.TopBit
import Vdht.NodeId.Token

/-!
# Buckets and distances

Two loops look at the XOR of two ids: `vnodeId_bucket` for its first bit that is set, and
`vnodeMetric_cmp` byte by byte for its size. As numbers, the first is the position of the top bit in
which the ids differ, and the second compares the distances, so a peer of a lower bucket is closer.
-/

namespace Vdht.NodeId

open Lib

/-! ## The bits of a token -/

theorem testBit_beNat {bs : List UInt8} {i : Nat} (hi : i < 8 * bs.length) :
    (beNat bs).testBit i = (bs.getD (bs.length - 1 - i / 8) 0).toNat.testBit (i % 8) := by
  induction bs with
  | nil => simp at hi
  | cons b bs ih =>
    rw [List.length_cons] at hi
    have hpow : (256 : Nat) ^ bs.length = 2 ^ (8 * bs.length) := by
      rw [Nat.pow_mul]
    have hlt : beNat bs < 2 ^ (8 * bs.length) := hpow ▸ beNat_lt bs
    rw [beNat, hpow, Nat.mul_comm, Nat.testBit_two_pow_mul_add _ hlt]
    by_cases hlow : i < 8 * bs.length
    · rw [if_pos hlow, ih hlow]
      have hidx : (b :: bs).length - 1 - i / 8 = bs.length - 1 - i / 8 + 1 := by
        rw [List.length_cons]
        omega
      rw [hidx, List.getD_cons_succ]
    · rw [if_neg hlow]
      have hidx : (b :: bs).length - 1 - i / 8 = 0 := by
        rw [List.length_cons]
        omega
      rw [hidx, List.getD_cons_zero]
      congr 1
      omega

theorem beNat_zipWith_xor {as bs : List UInt8} (h : as.length = bs.length) :
    beNat (List.zipWith (· ^^^ ·) as bs) = beNat as ^^^ beNat bs := by
  induction as generalizing bs with
  | nil =>
    cases bs with
    | nil => rfl
    | cons b bs => simp at h
  | cons a as ih =>
    cases bs with
    | nil => simp at h
    | cons b bs =>
      have hl : as.length = bs.length := by simpa using h
      have hlen : (List.zipWith (· ^^^ ·) as bs).length = bs.length := by simp [hl]
      rw [List.zipWith_cons_cons, beNat, beNat, beNat, hlen, hl, ih hl, UInt8.toNat_xor]
      have hpow : (256 : Nat) ^ bs.length = 2 ^ (8 * bs.length) := by
        rw [Nat.pow_mul]
      have ha : beNat as < 2 ^ (8 * bs.length) := hpow ▸ hl ▸ beNat_lt as
      have hb : beNat bs < 2 ^ (8 * bs.length) := hpow ▸ beNat_lt bs
      rw [hpow]
      apply Nat.eq_of_testBit_eq
      intro i
      rw [Nat.testBit_xor, Nat.mul_comm, Nat.mul_comm a.toNat, Nat.mul_comm b.toNat,
        Nat.testBit_two_pow_mul_add _ (Nat.xor_lt_two_pow ha hb),
        Nat.testBit_two_pow_mul_add _ ha, Nat.testBit_two_pow_mul_add _ hb]
      split
      · rw [Nat.testBit_xor]
      · rw [Nat.testBit_xor]

theorem metricVal_dist (a b : Token) :
    metricVal (vnodeIdDist a b) = metricVal a ^^^ metricVal b :=
  beNat_zipWith_xor (by simp)

theorem metricVal_lt (m : Token) : metricVal m < 2 ^ VTOKEN_BITLEN := by
  have h := beNat_lt m.data
  rw [m.size] at h
  exact h

/-- A bit of an id; bit 0 is the lowest one of the last byte. -/
def idBit (a : Token) (i : Nat) : Bool := (metricVal a).testBit i

/-! ## The bucket -/

theorem mask_testBit (b : Fin 8) (x : Fin 256) :
    ((1 <<< UInt8.ofNat b.val) &&& UInt8.ofNat x.val ≠ 0) ↔ x.val.testBit b.val = true := by
  revert b x
  decide +kernel

theorem comp_testBit {b : Nat} (hb : b < 8) (x : UInt8) :
    (1 <<< UInt8.ofNat b) &&& x ≠ 0 ↔ x.toNat.testBit b = true := by
  have h := mask_testBit ⟨b, hb⟩ ⟨x.toNat, x.toNat_lt⟩
  rwa [UInt8.ofNat_toNat] at h

/-- The bit that the loop looks at when `k` more turns follow. -/
theorem scannedBit {m : List UInt8} (hm : m.length = VTOKEN_LEN) {k : Nat}
    (hk : k < VTOKEN_BITLEN) :
    (1 <<< UInt8.ofNat (7 - (VTOKEN_BITLEN - (k + 1)) % 8)) &&&
        m.getD ((VTOKEN_BITLEN - (k + 1)) / 8) 0 ≠ 0 ↔ (beNat m).testBit k = true := by
  rw [VTOKEN_LEN] at hm
  rw [VTOKEN_BITLEN] at hk ⊢
  have hbyte : (160 - (k + 1)) / 8 = m.length - 1 - k / 8 := by omega
  have hbit : 7 - (160 - (k + 1)) % 8 = k % 8 := by omega
  rw [hbyte, hbit, comp_testBit (Nat.mod_lt _ (by decide)), testBit_beNat (by omega)]

/-- The loop finds the top bit, as the bits it has passed are not set. -/
theorem auxDistance_eq_log2 {m : List UInt8} (hm : m.length = VTOKEN_LEN) {k : Nat}
    (hk : k ≤ VTOKEN_BITLEN) (hlt : beNat m < 2 ^ k) : auxDistance m k = (beNat m).log2 := by
  induction k with
  | zero =>
    have hzero : beNat m = 0 := Nat.lt_one_iff.mp hlt
    rw [auxDistance, hzero, Nat.log2_zero]
  | succ k ih =>
    have hbit := scannedBit hm (Nat.lt_of_succ_le hk)
    rw [auxDistance]
    by_cases hset : (beNat m).testBit k = true
    · rw [if_pos (hbit.mpr hset), log2_of_testBit hlt hset]
    · rw [if_neg (mt hbit.mp hset)]
      exact ih (by omega) (lt_of_not_testBit hlt (Bool.not_eq_true _ ▸ hset))

theorem vnodeIdBucket_eq (a b : Token) :
    (vnodeIdBucket a b).val = topBit (metricVal a) (metricVal b) := by
  show auxDistance (vnodeIdDist a b).data VTOKEN_BITLEN = _
  rw [auxDistance_eq_log2 (vnodeIdDist a b).size (Nat.le_refl _) (metricVal_lt _), topBit,
    ← metricVal_dist]
  rfl

/-- `k` is the highest position in which the ids differ, and 0 for equal ids. -/
structure HighestDifference (a b : Token) (k : Nat) : Prop where
  equal : a = b → k = 0
  differs : a ≠ b → idBit a k ≠ idBit b k
  above : ∀ i, k < i → idBit a i = idBit b i

theorem highestDifference_bucket (a b : Token) :
    HighestDifference a b (vnodeIdBucket a b).val := by
  rw [vnodeIdBucket_eq]
  refine ⟨?_, ?_, fun i hi => testBit_above hi⟩
  · rintro rfl
    exact topBit_self _
  · intro hne
    exact testBit_top fun hval => hne (metricVal_injective hval)

/-- A peer of a lower bucket is closer. -/
theorem dist_lt_of_bucket_lt {a b c : Token} (h : vnodeIdBucket a b < vnodeIdBucket a c) :
    metricVal (vnodeIdDist a b) < metricVal (vnodeIdDist a c) := by
  have htop : topBit (metricVal a) (metricVal b) < topBit (metricVal a) (metricVal c) := by
    rw [← vnodeIdBucket_eq, ← vnodeIdBucket_eq]
    exact h
  rw [metricVal_dist, metricVal_dist]
  exact lt_of_log2_lt htop

/-! ## The comparison -/

theorem vnodeMetricCmp_cases (a b : Token) :
    (vnodeMetricCmp a b = 1 ∧ metricVal a < metricVal b) ∨
      (vnodeMetricCmp a b = 0 ∧ a = b) ∨
      (vnodeMetricCmp a b = -1 ∧ metricVal b < metricVal a) := by
  rw [vnodeMetricCmp_eq]
  rcases Nat.lt_trichotomy (metricVal a) (metricVal b) with hlt | heq | hgt
  · exact Or.inl ⟨if_pos hlt, hlt⟩
  · refine Or.inr (Or.inl ⟨?_, metricVal_injective heq⟩)
    rw [if_neg (by omega), if_neg (by omega)]
  · refine Or.inr (Or.inr ⟨?_, hgt⟩)
    rw [if_neg (by omega), if_pos hgt]

theorem cmp_eq_one_iff {a b : Token} : vnodeMetricCmp a b = 1 ↔ metricVal a < metricVal b := by
  rcases vnodeMetricCmp_cases a b with ⟨h, hlt⟩ | ⟨h, rfl⟩ | ⟨h, hgt⟩
  · exact iff_of_true h hlt
  · rw [h]
    omega
  · rw [h]
    omega

theorem cmp_eq_neg_one_iff {a b : Token} :
    vnodeMetricCmp a b = -1 ↔ metricVal b < metricVal a := by
  rcases vnodeMetricCmp_cases a b with ⟨h, hlt⟩ | ⟨h, rfl⟩ | ⟨h, hgt⟩
  · rw [h]
    omega
  · rw [h]
    omega
  · exact iff_of_true h hgt

theorem cmp_nonneg_iff {a b : Token} : 0 ≤ vnodeMetricCmp a b ↔ metricVal a ≤ metricVal b := by
  rcases vnodeMetricCmp_cases a b with ⟨h, hlt⟩ | ⟨h, rfl⟩ | ⟨h, hgt⟩
  · rw [h]
    omega
  · rw [h]
    omega
  · rw [h]
    omega

/-- Metrics in the order in which the comparison puts them, the smaller number first. -/
def MetricLe (a b : Token) : Prop := 0 ≤ vnodeMetricCmp a b

theorem metricLe_linear : IsLinearOrder Token MetricLe where
  refl _ := cmp_nonneg_iff.mpr (Nat.le_refl _)
  trans _ _ _ hab hbc :=
    cmp_nonneg_iff.mpr ((cmp_nonneg_iff.mp hab).trans (cmp_nonneg_iff.mp hbc))
  antisymm _ _ hab hba :=
    metricVal_injective (Nat.le_antisymm (cmp_nonneg_iff.mp hab) (cmp_nonneg_iff.mp hba))
  total a b := (Nat.le_total (metricVal a) (metricVal b)).imp cmp_nonneg_iff.mpr cmp_nonneg_iff.mpr

/-- The bucket of two ids is the highest position in which they differ, an ultrametric; the
comparison orders metrics as numbers, the smaller one giving 1; and the two agree. -/
theorem bucket_metric_agree :
    (∀ a b, vnodeIdBucket a b = vnodeIdBucket b a ∧ (vnodeIdBucket a b).val ≤ 159 ∧
        HighestDifference a b (vnodeIdBucket a b).val) ∧
      (∀ a b c, (vnodeIdBucket a c).val ≤
        max (vnodeIdBucket a b).val (vnodeIdBucket b c).val) ∧
      IsLinearOrder Token MetricLe ∧
      (∀ a b, (vnodeMetricCmp a b = 1 ↔ metricVal a < metricVal b) ∧
        (vnodeMetricCmp a b = -1 ↔ metricVal b < metricVal a) ∧
        (vnodeMetricCmp a b = 0 ↔ a = b)) ∧
      ∀ a b c, vnodeIdBucket a b < vnodeIdBucket a c →
        vnodeMetricCmp (vnodeIdDist a b) (vnodeIdDist a c) = 1 := by
  refine ⟨fun a b => ⟨?_, ?_, highestDifference_bucket a b⟩, fun a b c => ?_, metricLe_linear,
    fun a b => ⟨cmp_eq_one_iff, cmp_eq_neg_one_iff, ?_⟩, fun a b c h => ?_⟩
  · apply Fin.ext
    rw [vnodeIdBucket_eq, vnodeIdBucket_eq, topBit_comm]
  · exact Nat.le_of_lt_succ (vnodeIdBucket a b).isLt
  · rw [vnodeIdBucket_eq, vnodeIdBucket_eq, vnodeIdBucket_eq]
    exact topBit_triangle _ _ _
  · rcases vnodeMetricCmp_cases a b with ⟨h, hlt⟩ | ⟨h, heq⟩ | ⟨h, hgt⟩
    · rw [h]
      exact iff_of_false (by decide) fun heq => by rw [heq] at hlt; omega
    · exact iff_of_true h heq
    · rw [h]
      exact iff_of_false (by decide) fun heq => by rw [heq] at hgt; omega
  · exact cmp_eq_one_iff.mpr (dist_lt_of_bucket_lt h)

end Vdht.NodeId
