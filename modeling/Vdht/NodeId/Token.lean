import Vdht.Def
import Vdht.Lib.Bytes

/-!
# Tokens and the distance between node ids

`vtoken`, `vnonce` and the XOR metric of `vnodeId.c`. `vnodeMetric_cmp` answers 1 when the
first metric is the smaller one; as a number the metric is read with its first byte as the
most significant.
-/

namespace Vdht.NodeId

open Lib

/-- The bytes of an id, of a hash and of a version. -/
def VTOKEN_LEN : Nat := 20

/-- The bits of an id. -/
def VTOKEN_BITLEN : Nat := 160

/-- The bytes of a nonce. -/
def VNONCE_LEN : Nat := 4

/-- An id of a node, a hash of a service or a version. -/
abbrev Token := Block VTOKEN_LEN

/-- The nonce by which a response is matched with its query. -/
abbrev Vnonce := Block VNONCE_LEN

/-- The loop of `vtoken_equal` and `vsrvcHash_equal`. -/
def bytesEqual : List UInt8 → List UInt8 → Bool
  | a :: as, b :: bs => if a ≠ b then false else bytesEqual as bs
  | _, _ => true

/-- `vtoken_equal`: all bytes are the same. -/
def vtokenEqual (a b : Token) : Bool := bytesEqual a.data b.data

/-- `vsrvcHash_equal`: all bytes are the same. -/
def vsrvcHashEqual (a b : Token) : Bool := bytesEqual a.data b.data

/-- Compares the two nonces as one 32-bit word. -/
def vnonceEqual (a b : Vnonce) : Bool := leNat a.data == leNat b.data

theorem bytesEqual_iff {as bs : List UInt8} (h : as.length = bs.length) :
    bytesEqual as bs = true ↔ as = bs := by
  induction as generalizing bs with
  | nil =>
    cases bs with
    | nil => simp [bytesEqual]
    | cons b bs => simp at h
  | cons a as ih =>
    cases bs with
    | nil => simp at h
    | cons b bs =>
      have hl : as.length = bs.length := by simpa using h
      unfold bytesEqual
      by_cases hab : a = b
      · rw [if_neg (by simp [hab]), ih hl, hab]
        simp
      · rw [if_pos hab]
        simp [hab]

@[simp] theorem vtokenEqual_iff {a b : Token} : vtokenEqual a b = true ↔ a = b := by
  rw [vtokenEqual, bytesEqual_iff (by simp)]
  exact ⟨Block.ext, fun h => by rw [h]⟩

@[simp] theorem vsrvcHashEqual_iff {a b : Token} : vsrvcHashEqual a b = true ↔ a = b :=
  vtokenEqual_iff

@[simp] theorem vnonceEqual_iff {a b : Vnonce} : vnonceEqual a b = true ↔ a = b := by
  constructor
  · intro h
    have hval : leNat a.data = leNat b.data := by simpa [vnonceEqual] using h
    apply Block.ext
    rw [← leBytes_leNat a.data, ← leBytes_leNat b.data, hval, a.size, b.size]
  · rintro rfl
    simp [vnonceEqual]

/-! ## The metric -/

/-- `vnodeId_dist`: the distance of two ids, their bytes combined by exclusive or. -/
def vnodeIdDist (a b : Token) : Token :=
  ⟨List.zipWith (· ^^^ ·) a.data b.data, by simp⟩

/-- The loop of `_aux_distance`, with `k` turns left. -/
def auxDistance (m : List UInt8) : Nat → Nat
  | 0 => 0
  | k + 1 =>
    let i := VTOKEN_BITLEN - (k + 1)
    let bbit := 7 - i % 8
    if (1 <<< UInt8.ofNat bbit) &&& m.getD (i / 8) 0 ≠ 0 then k else auxDistance m k

theorem auxDistance_lt (m : List UInt8) {k : Nat} (h : 0 < k) : auxDistance m k < k := by
  induction k with
  | zero => omega
  | succ k ih =>
    unfold auxDistance
    dsimp only
    split
    · omega
    · cases k with
      | zero => simp [auxDistance]
      | succ k =>
        have := ih (by omega)
        omega

/-- `NBUCKETS` is the number of bits of an id. -/
def NBUCKETS : Nat := VTOKEN_BITLEN

/-- `vnodeId_bucket`: the bucket of an id as seen from another one, by the highest bit in which they
differ. -/
def vnodeIdBucket (a b : Token) : Fin NBUCKETS :=
  ⟨auxDistance (vnodeIdDist a b).data VTOKEN_BITLEN, auxDistance_lt _ (by decide)⟩

/-- The loop of `vnodeMetric_cmp`. -/
def bytesCmp : List UInt8 → List UInt8 → Int
  | a :: as, b :: bs => if a < b then 1 else if b < a then -1 else bytesCmp as bs
  | _, _ => 0

/-- `vnodeMetric_cmp`: two distances compared from the first byte on. -/
def vnodeMetricCmp (a b : Token) : Int := bytesCmp a.data b.data

/-- The metric as a number. -/
def metricVal (m : Token) : Nat := beNat m.data

theorem bytesCmp_eq {as bs : List UInt8} (h : as.length = bs.length) :
    bytesCmp as bs = if beNat as < beNat bs then 1 else if beNat bs < beNat as then -1 else 0 := by
  induction as generalizing bs with
  | nil =>
    cases bs with
    | nil => simp [bytesCmp]
    | cons b bs => simp at h
  | cons a as ih =>
    cases bs with
    | nil => simp at h
    | cons b bs =>
      have hl : as.length = bs.length := by simpa using h
      unfold bytesCmp
      rcases byte_trichotomy a b with hlt | heq | hgt
      · rw [if_pos hlt, if_pos (beNat_cons_lt hl hlt)]
      · subst heq
        rw [if_neg (UInt8.lt_irrefl a), if_neg (UInt8.lt_irrefl a), ih hl]
        simp only [beNat, hl, Nat.add_lt_add_iff_left]
      · have hval := beNat_cons_lt hl.symm hgt
        rw [if_neg (UInt8.lt_asymm hgt), if_pos hgt, if_neg (by omega), if_pos hval]

theorem vnodeMetricCmp_eq (a b : Token) :
    vnodeMetricCmp a b =
      if metricVal a < metricVal b then 1 else if metricVal b < metricVal a then -1 else 0 :=
  bytesCmp_eq (by simp)

theorem metricVal_injective {a b : Token} (h : metricVal a = metricVal b) : a = b :=
  Block.ext (beNat_injective (by simp) h)

theorem xor_right_cancel {a b c : UInt8} (h : a ^^^ c = b ^^^ c) : a = b := by
  have hx : (a ^^^ c) ^^^ c = (b ^^^ c) ^^^ c := by rw [h]
  rwa [UInt8.xor_assoc, UInt8.xor_assoc, UInt8.xor_self, UInt8.xor_zero, UInt8.xor_zero] at hx

theorem zipWith_xor_cancel {as bs cs : List UInt8} (ha : as.length = cs.length)
    (hb : bs.length = cs.length)
    (h : List.zipWith (· ^^^ ·) as cs = List.zipWith (· ^^^ ·) bs cs) : as = bs := by
  induction cs generalizing as bs with
  | nil => rw [List.length_eq_zero_iff.mp ha, List.length_eq_zero_iff.mp hb]
  | cons c cs ih =>
    cases as with
    | nil => simp at ha
    | cons a as =>
      cases bs with
      | nil => simp at hb
      | cons b bs =>
        simp only [List.zipWith_cons_cons, List.cons.injEq] at h
        rw [xor_right_cancel h.1, ih (by simpa using ha) (by simpa using hb) h.2]

/-- Ids at the same distance from a target are equal. -/
theorem dist_injective {a b target : Token}
    (h : metricVal (vnodeIdDist a target) = metricVal (vnodeIdDist b target)) : a = b := by
  apply Block.ext
  have hdist := congrArg Block.data (metricVal_injective h)
  exact zipWith_xor_cancel (by simp) (by simp) hdist

end Vdht.NodeId
