import Mathlib.Algebra.Order.Ring.Int
import Mathlib.Data.List.Basic

/-!
# Byte blocks and little-endian fields

A fixed-size byte field is a list of bytes that carries its length, so that a block of the
wrong size cannot be built. Integer fields are read and written in little-endian order, the
order of the platforms the modelled programs run on. The codec lemmas below are stated for
an arbitrary width; the integer types get them through their unsigned values.
-/

namespace Vdht.Lib

/-- `n` bytes of memory. -/
structure Block (n : Nat) where
  data : List UInt8
  size : data.length = n
deriving DecidableEq

namespace Block

variable {n : Nat}

@[ext] theorem ext {a b : Block n} (h : a.data = b.data) : a = b := by
  cases a; cases b; cases h; rfl

@[simp] theorem length_data (b : Block n) : b.data.length = n := b.size

/-- The block of `n` zero bytes. -/
def zero (n : Nat) : Block n := ⟨List.replicate n 0, by simp⟩

/-- Copy the bytes `s` over the front of `b`, as `memcpy` does. Bytes of `s` beyond the end
of `b` are dropped. -/
def overwrite (b : Block n) (s : List UInt8) : Block n :=
  ⟨(s ++ b.data.drop s.length).take n, by
    have := b.size
    simp only [List.length_take, List.length_append, List.length_drop]
    omega⟩

theorem overwrite_data (b : Block n) {s : List UInt8} (h : s.length ≤ n) :
    (b.overwrite s).data = s ++ b.data.drop s.length := by
  have := b.size
  unfold overwrite
  apply List.take_of_length_le
  simp only [List.length_append, List.length_drop]
  omega

/-- A full overwrite forgets the previous contents. -/
theorem overwrite_full (b : Block n) (s : Block n) : b.overwrite s.data = s := by
  apply Block.ext
  rw [overwrite_data b (Nat.le_of_eq s.size), List.drop_of_length_le (by simp), List.append_nil]

/-- The block read at the front of `s`, padded with zeros when `s` is short. -/
def ofList (n : Nat) (s : List UInt8) : Block n := (zero n).overwrite s

theorem ofList_data (b : Block n) (rest : List UInt8) : ofList n (b.data ++ rest) = b := by
  apply Block.ext
  simp only [ofList, overwrite, List.append_assoc]
  exact List.take_left' b.size

end Block

/-! ## Little-endian integers -/

/-- The low `k` bytes of `v`, least significant first. -/
def leBytes : Nat → Nat → List UInt8
  | 0, _ => []
  | k + 1, v => UInt8.ofNat v :: leBytes k (v / 256)

/-- The value of a little-endian byte list. -/
def leNat : List UInt8 → Nat
  | [] => 0
  | b :: bs => b.toNat + 256 * leNat bs

@[simp] theorem length_leBytes (k v : Nat) : (leBytes k v).length = k := by
  induction k generalizing v with
  | zero => rfl
  | succ k ih => simp [leBytes, ih]

theorem leNat_leBytes (k v : Nat) : leNat (leBytes k v) = v % 256 ^ k := by
  induction k generalizing v with
  | zero => simp [leBytes, leNat, Nat.mod_one]
  | succ k ih =>
    have hp : 256 ^ (k + 1) = 256 * 256 ^ k := Nat.pow_succ'
    simp only [leBytes, leNat, ih, UInt8.toNat_ofNat', hp, Nat.mod_mul]

theorem leNat_lt (bs : List UInt8) : leNat bs < 256 ^ bs.length := by
  induction bs with
  | nil => simp [leNat]
  | cons b bs ih =>
    have := b.toNat_lt
    simp only [leNat, List.length_cons, Nat.pow_succ]
    omega

theorem leBytes_leNat (bs : List UInt8) : leBytes bs.length (leNat bs) = bs := by
  induction bs with
  | nil => rfl
  | cons b bs ih =>
    have hb := b.toNat_lt
    have hq : (b.toNat + 256 * leNat bs) / 256 = leNat bs := by omega
    have hr : UInt8.ofNat (b.toNat + 256 * leNat bs) = b := by
      apply UInt8.toNat_inj.mp
      rw [UInt8.toNat_ofNat']
      omega
    simp only [leNat, List.length_cons, leBytes, hq, hr, ih]

/-- The value of a big-endian byte list. -/
def beNat : List UInt8 → Nat
  | [] => 0
  | b :: bs => b.toNat * 256 ^ bs.length + beNat bs

theorem beNat_lt (bs : List UInt8) : beNat bs < 256 ^ bs.length := by
  induction bs with
  | nil => simp [beNat]
  | cons b bs ih =>
    have hb : b.toNat ≤ 255 := by
      have := b.toNat_lt
      omega
    have hmul : b.toNat * 256 ^ bs.length ≤ 255 * 256 ^ bs.length := Nat.mul_le_mul_right _ hb
    simp only [beNat, List.length_cons, Nat.pow_succ]
    omega

/-- The first byte in which two words differ decides which is smaller. -/
theorem beNat_cons_lt {a b : UInt8} {as bs : List UInt8} (hlen : as.length = bs.length)
    (h : a < b) : beNat (a :: as) < beNat (b :: bs) := by
  have ha := beNat_lt as
  have hab : a.toNat + 1 ≤ b.toNat := UInt8.lt_iff_toNat_lt.mp h
  have hmul : (a.toNat + 1) * 256 ^ as.length ≤ b.toNat * 256 ^ as.length :=
    Nat.mul_le_mul_right _ hab
  rw [Nat.add_mul, Nat.one_mul] at hmul
  simp only [beNat, ← hlen]
  omega

theorem byte_trichotomy (a b : UInt8) : a < b ∨ a = b ∨ b < a := by
  rcases Nat.lt_trichotomy a.toNat b.toNat with h | h | h
  · exact Or.inl (UInt8.lt_iff_toNat_lt.mpr h)
  · exact Or.inr (Or.inl (UInt8.toNat_inj.mp h))
  · exact Or.inr (Or.inr (UInt8.lt_iff_toNat_lt.mpr h))

theorem beNat_injective {as bs : List UInt8} (hlen : as.length = bs.length)
    (h : beNat as = beNat bs) : as = bs := by
  induction as generalizing bs with
  | nil =>
    cases bs with
    | nil => rfl
    | cons b bs => simp at hlen
  | cons a as ih =>
    cases bs with
    | nil => simp at hlen
    | cons b bs =>
      have hl : as.length = bs.length := by simpa using hlen
      rcases byte_trichotomy a b with hlt | heq | hgt
      · have := beNat_cons_lt hl hlt
        omega
      · subst heq
        simp only [beNat, hl] at h
        rw [ih hl (by omega)]
      · have := beNat_cons_lt hl.symm hgt
        omega

/-- Two bytes, the low one first, as the machine has them in memory. -/
def putU16 (x : UInt16) : List UInt8 := leBytes 2 x.toNat

/-- The number in the first two bytes, the low one first. -/
def getU16 (s : List UInt8) : UInt16 := UInt16.ofNat (leNat (s.take 2))

/-- Four bytes, the low one first. -/
def putU32 (x : UInt32) : List UInt8 := leBytes 4 x.toNat

/-- The number in the first four bytes, the low one first. -/
def getU32 (s : List UInt8) : UInt32 := UInt32.ofNat (leNat (s.take 4))

/-- The bytes of a signed number, in two's complement. -/
def putI16 (x : Int16) : List UInt8 := putU16 x.toUInt16

/-- The signed number in the first two bytes. -/
def getI16 (s : List UInt8) : Int16 := (getU16 s).toInt16

/-- The bytes of a signed number, in two's complement. -/
def putI32 (x : Int32) : List UInt8 := putU32 x.toUInt32

/-- The signed number in the first four bytes. -/
def getI32 (s : List UInt8) : Int32 := (getU32 s).toInt32

@[simp] theorem length_putU16 (x : UInt16) : (putU16 x).length = 2 := length_leBytes _ _

@[simp] theorem length_putU32 (x : UInt32) : (putU32 x).length = 4 := length_leBytes _ _

@[simp] theorem length_putI16 (x : Int16) : (putI16 x).length = 2 := length_leBytes _ _

@[simp] theorem length_putI32 (x : Int32) : (putI32 x).length = 4 := length_leBytes _ _

@[simp] theorem getU16_put (x : UInt16) (rest : List UInt8) : getU16 (putU16 x ++ rest) = x := by
  have hx : x.toNat < 256 ^ 2 := x.toNat_lt
  rw [getU16, List.take_left' (length_putU16 x), putU16, leNat_leBytes, Nat.mod_eq_of_lt hx,
    UInt16.ofNat_toNat]

@[simp] theorem getU32_put (x : UInt32) (rest : List UInt8) : getU32 (putU32 x ++ rest) = x := by
  have hx : x.toNat < 256 ^ 4 := x.toNat_lt
  rw [getU32, List.take_left' (length_putU32 x), putU32, leNat_leBytes, Nat.mod_eq_of_lt hx,
    UInt32.ofNat_toNat]

@[simp] theorem getI16_put (x : Int16) (rest : List UInt8) : getI16 (putI16 x ++ rest) = x := by
  simp [getI16, putI16]

@[simp] theorem getI32_put (x : Int32) (rest : List UInt8) : getI32 (putI32 x ++ rest) = x := by
  simp [getI32, putI32]

/-! ## Every field value is written by some integer -/

theorem exists_putU16 {l : List UInt8} (h : l.length = 2) : ∃ x, putU16 x = l := by
  have hlt : leNat l < 2 ^ 16 := by
    have := leNat_lt l
    rwa [h] at this
  refine ⟨UInt16.ofNat (leNat l), ?_⟩
  rw [putU16, UInt16.toNat_ofNat_of_lt' hlt, ← h]
  exact leBytes_leNat l

theorem exists_putU32 {l : List UInt8} (h : l.length = 4) : ∃ x, putU32 x = l := by
  have hlt : leNat l < 2 ^ 32 := by
    have := leNat_lt l
    rwa [h] at this
  refine ⟨UInt32.ofNat (leNat l), ?_⟩
  rw [putU32, UInt32.toNat_ofNat_of_lt' hlt, ← h]
  exact leBytes_leNat l

theorem exists_putI16 {l : List UInt8} (h : l.length = 2) : ∃ x, putI16 x = l := by
  obtain ⟨x, hx⟩ := exists_putU16 h
  exact ⟨x.toInt16, by rw [putI16, UInt16.toUInt16_toInt16, hx]⟩

theorem exists_putI32 {l : List UInt8} (h : l.length = 4) : ∃ x, putI32 x = l := by
  obtain ⟨x, hx⟩ := exists_putU32 h
  exact ⟨x.toInt32, by rw [putI32, UInt32.toUInt32_toInt32, hx]⟩

end Vdht.Lib
