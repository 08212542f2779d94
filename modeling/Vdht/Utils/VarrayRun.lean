import Vdht.Utils.Varray
import Mathlib.Algebra.Order.Ring.Int

/-!
# Runs of the growable array

The loop of `varray_add` starts at `i = used`, so it also moves the slot behind the last
item, and the loop of `varray_del` ends by reading the slot behind the last item. Both need
one slot more than the array is promised to have: an insertion that leaves no free slot
behind and a removal from a full block touch the slot at index `capc`.

`Fits` names the steps without such an access. For one step it is exact (`exec_fits`,
`exec_not_fits`); `varray_follows_iff` extends this to every run from `varray_init`.
-/

namespace Vdht.Utils

open Lib

variable {α : Type}

/-! ## Slots -/

@[simp] theorem length_reallocSlots (items : List (Option α)) (n : Nat) :
    (reallocSlots items n).length = n := by
  simp only [reallocSlots, List.length_append, List.length_take, List.length_replicate]
  omega

theorem getElem?_reallocSlots {items : List (Option α)} {n i : Nat} (hn : i < n)
    (hi : i < items.length) : (reallocSlots items n)[i]? = items[i]? := by
  rw [reallocSlots, List.getElem?_append_left (by simp only [List.length_take]; omega),
    List.getElem?_take_of_lt hn]

theorem shiftUp_ok {items : List (Option α)} {idx n : Nat} (h : idx + n < items.length) :
    ∃ res, shiftUp items idx n = .ok res ∧ res.length = items.length ∧
      ∀ j, res[j]? = if idx < j ∧ j ≤ idx + n then items[j - 1]? else items[j]? := by
  induction n generalizing items with
  | zero =>
    refine ⟨items, rfl, rfl, ?_⟩
    intro j
    rw [if_neg (by omega)]
  | succ n ih =>
    have hlt : idx + n < items.length := by omega
    obtain ⟨res, hres, hlen, hget⟩ := @ih (items.set (idx + n + 1) items[idx + n])
      (by simp only [List.length_set]; omega)
    refine ⟨res, ?_, by simpa using hlen, ?_⟩
    · rw [shiftUp, getSlot_ok hlt, ok_bind, setSlot_ok (by omega), ok_bind]
      exact hres
    · intro j
      rw [hget j]
      by_cases hj : j = idx + n + 1
      · subst hj
        rw [if_neg (by omega), if_pos (by omega), List.getElem?_set_self (by omega)]
        simp [hlt]
      · by_cases hin : idx < j ∧ j ≤ idx + n
        · rw [if_pos hin, if_pos (by omega), List.getElem?_set_ne (by omega)]
        · rw [if_neg hin, if_neg (by omega), List.getElem?_set_ne (by omega)]

/-- The first turn already needs the slot `idx + n + 1`. -/
theorem shiftUp_error {items : List (Option α)} {idx n : Nat} (h : items.length ≤ idx + n + 1) :
    shiftUp items idx (n + 1) = .error .bounds := by
  rw [shiftUp]
  rcases Nat.lt_or_ge (idx + n) items.length with hlt | hge
  · rw [getSlot_ok hlt, ok_bind, setSlot_error h, error_bind]
  · rw [getSlot_error hge, error_bind]

theorem shiftDown_ok {items : List (Option α)} {i n : Nat} (h : i + n < items.length) :
    ∃ res, shiftDown items i n = .ok res ∧ res.length = items.length ∧
      ∀ j, res[j]? = if i ≤ j ∧ j < i + n then items[j + 1]? else items[j]? := by
  induction n generalizing items i with
  | zero =>
    refine ⟨items, rfl, rfl, ?_⟩
    intro j
    rw [if_neg (by omega)]
  | succ n ih =>
    have hlt : i + 1 < items.length := by omega
    obtain ⟨res, hres, hlen, hget⟩ := @ih (items.set i items[i + 1]) (i + 1)
      (by simp only [List.length_set]; omega)
    refine ⟨res, ?_, by simpa using hlen, ?_⟩
    · rw [shiftDown, getSlot_ok hlt, ok_bind, setSlot_ok (by omega), ok_bind]
      exact hres
    · intro j
      rw [hget j]
      by_cases hj : j = i
      · subst hj
        rw [if_neg (by omega), if_pos (by omega), List.getElem?_set_self (by omega)]
        simp [hlt]
      · by_cases hin : i + 1 ≤ j ∧ j < i + 1 + n
        · rw [if_pos hin, if_pos (by omega), List.getElem?_set_ne (by omega)]
        · rw [if_neg hin, if_neg (by omega), List.getElem?_set_ne (by omega)]

/-- The last turn reads the slot `i + n`. -/
theorem shiftDown_error {items : List (Option α)} {i n : Nat} (hn : 0 < n)
    (h : items.length ≤ i + n) : shiftDown items i n = .error .bounds := by
  induction n generalizing items i with
  | zero => omega
  | succ n ih =>
    rw [shiftDown]
    rcases Nat.lt_or_ge (i + 1) items.length with hlt | hge
    · rw [getSlot_ok hlt, ok_bind, setSlot_ok (by omega), ok_bind]
      apply ih
      · omega
      · simp only [List.length_set]
        omega
    · rw [getSlot_error hge, error_bind]

/-! ## The invariant of a run -/

/-- The capacity is zero or the first capacity doubled some number of times. This is what
makes halving exact. -/
structure Sound (a : Varray α) (l : List α) : Prop extends Represents a l where
  first_pos : 0 < a.first
  capc_pow : a.capc = 0 ∨ ∃ k, a.capc = a.first * 2 ^ k

theorem Sound.length {a : Varray α} {l : List α} (h : Sound a l) : l.length = a.used := by
  have hc := congrArg List.length h.contents
  have hb := h.block
  have hu := h.used_le
  simp only [List.length_take, List.length_map] at hc
  omega

theorem Sound.getElem? {a : Varray α} {l : List α} (h : Sound a l) {i : Nat} (hi : i < a.used) :
    a.items[i]? = some l[i]? := by
  have hl : i < l.length := by rw [h.length]; exact hi
  have hc : (a.items.take a.used)[i]? = (l.map some)[i]? := by rw [h.contents]
  rw [List.getElem?_take_of_lt hi, List.getElem?_map, List.getElem?_eq_getElem hl] at hc
  rw [hc, List.getElem?_eq_getElem hl]
  rfl

/-- The contents, read slot by slot. -/
theorem contents_iff {items : List (Option α)} {l : List α} (hle : l.length ≤ items.length) :
    items.take l.length = l.map some ↔ ∀ i, i < l.length → items[i]? = some l[i]? := by
  constructor
  · intro h i hi
    have hc : (items.take l.length)[i]? = (l.map some)[i]? := by rw [h]
    rw [List.getElem?_take_of_lt hi, List.getElem?_map, List.getElem?_eq_getElem hi] at hc
    rw [hc, List.getElem?_eq_getElem hi]
    rfl
  · intro h
    apply List.ext_getElem?
    intro i
    rcases Nat.lt_or_ge i l.length with hi | hi
    · rw [List.getElem?_take_of_lt hi, h i hi, List.getElem?_map, List.getElem?_eq_getElem hi]
      rfl
    · rw [List.getElem?_eq_none (by simp only [List.length_take]; omega),
        List.getElem?_eq_none (by simpa using hi)]

/-- Build the invariant of an array from its slots. -/
theorem Sound.of_slots {used capc first : Nat} {items : List (Option α)} {l : List α}
    (hpos : 0 < first) (hpow : capc = 0 ∨ ∃ k, capc = first * 2 ^ k)
    (hblock : items.length = capc) (hlen : l.length = used) (hle : used ≤ capc)
    (hget : ∀ i, i < l.length → items[i]? = some l[i]?) :
    Sound ⟨used, capc, first, items⟩ l where
  block := hblock
  used_le := hle
  contents := by
    show items.take used = l.map some
    rw [← hlen]
    exact (contents_iff (by omega)).mpr hget
  first_pos := hpos
  capc_pow := hpow

theorem sound_init (firstCapc : Nat) : Sound (varrayInit firstCapc : Varray α) [] := by
  refine ⟨⟨rfl, Nat.le_refl _, rfl⟩, ?_, Or.inl rfl⟩
  simp only [varrayInit, VARRAY_FIRST_CAPC]
  split <;> omega

/-! ## Growing and shrinking -/

/-- The capacity an insertion works with: a full block is doubled first. -/
def Varray.roomy (a : Varray α) : Nat :=
  if a.used < a.capc then a.capc else if a.capc = 0 then a.first else a.capc * 2

theorem grow_ok {a : Varray α} {l : List α} (h : Sound a l) :
    ∃ b, extendIfFull a = .ok b ∧ Sound b l ∧
      b.used = a.used ∧ b.capc = a.roomy ∧ b.first = a.first ∧ b.used < b.capc := by
  have hlen := h.length
  have hu := h.used_le
  have hpos := h.first_pos
  by_cases hfull : a.used ≥ a.capc
  · have hroomy : a.roomy = if a.capc = 0 then a.first else a.capc * 2 := by
      rw [Varray.roomy, if_neg (by omega)]
    have hlt : a.used < a.roomy := by
      rw [hroomy]
      split <;> omega
    have hpow : a.roomy = 0 ∨ ∃ k, a.roomy = a.first * 2 ^ k := by
      rw [hroomy]
      rcases h.capc_pow with h0 | ⟨k, hk⟩
      · exact Or.inr ⟨0, by rw [if_pos h0]; simp⟩
      · have hne : a.capc ≠ 0 := by
          rw [hk]
          exact Nat.ne_of_gt (Nat.mul_pos hpos (Nat.two_pow_pos k))
        exact Or.inr ⟨k + 1, by rw [if_neg hne, hk, Nat.pow_succ, Nat.mul_assoc]⟩
    refine ⟨{ a with capc := a.roomy, items := reallocSlots a.items a.roomy },
      ?_, ?_, rfl, rfl, rfl, hlt⟩
    · rw [extendIfFull, if_pos hfull, auxExtend, if_neg (by omega), ← hroomy]
    · apply Sound.of_slots hpos hpow (length_reallocSlots _ _) hlen
        (Nat.le_of_lt hlt)
      intro i hi
      have hi' : i < a.used := by omega
      rw [← h.getElem? hi']
      exact getElem?_reallocSlots (by omega) (by have := h.block; omega)
  · rw [extendIfFull, if_neg hfull]
    refine ⟨a, rfl, h, rfl, ?_, rfl, by omega⟩
    rw [Varray.roomy, if_pos (by omega)]

/-- Shrinking a sparse array keeps its items and, unless nothing was removed, leaves a free
slot behind them. -/
theorem shrink_ok {a : Varray α} {l : List α} (h : Sound a l) :
    ∃ b, shrinkIfSparse a = .ok b ∧ Sound b l ∧
      b.used = a.used ∧ b.first = a.first ∧ (b.used < b.capc ↔ a.used < a.capc) := by
  have hlen := h.length
  have hb := h.block
  by_cases hs : a.Sparse
  · have hne : a.items ≠ [] := by
      intro h0
      have := hs.2
      rw [h0] at hb
      simp only [List.length_nil] at hb
      omega
    have huse : ¬ a.capc < a.used * 2 := by have := hs.2; omega
    rw [shrinkIfSparse, if_pos hs, auxShrink, if_neg hne, if_neg huse]
    by_cases hf : a.capc = a.first
    · rw [if_pos hf]
      exact ⟨a, rfl, h, rfl, rfl, Iff.rfl⟩
    · rw [if_neg hf]
      obtain ⟨k, hk⟩ : ∃ k, a.capc = a.first * 2 ^ (k + 1) := by
        rcases h.capc_pow with h0 | ⟨k, hk⟩
        · have := hs.2
          omega
        · cases k with
          | zero => simp only [Nat.pow_zero, Nat.mul_one] at hk; exact absurd hk hf
          | succ k => exact ⟨k, hk⟩
      have heven : a.capc = a.first * 2 ^ k * 2 := by rw [hk, Nat.pow_succ, Nat.mul_assoc]
      have hhalf : a.capc / 2 = a.first * 2 ^ k := by omega
      have hroom : a.used < a.capc / 2 := by have := hs.2; omega
      refine ⟨{ a with capc := a.capc / 2, items := reallocSlots a.items (a.capc / 2) },
        rfl, ?_, rfl, rfl, ?_⟩
      · apply Sound.of_slots h.first_pos (Or.inr ⟨k, hhalf⟩)
          (length_reallocSlots _ _) hlen (Nat.le_of_lt hroom)
        intro i hi
        have hi' : i < a.used := by omega
        rw [← h.getElem? hi']
        exact getElem?_reallocSlots (by omega) (by omega)
      · show a.used < a.capc / 2 ↔ a.used < a.capc
        omega
  · rw [shrinkIfSparse, if_neg hs]
    exact ⟨a, rfl, h, rfl, rfl, Iff.rfl⟩

/-! ## One step -/

/-- The step touches no slot outside the block: an insertion leaves a free slot behind the
items, a removal starts from a block that is not full. -/
def Fits (a : Varray α) : VarrayOp α → Prop
  | .add idx item => item = none ∨ ¬ (0 ≤ idx ∧ idx < a.used) ∨ a.used + 1 < a.roomy
  | .del idx => ¬ (0 ≤ idx ∧ idx < a.used) ∨ a.used < a.capc
  | _ => True

theorem Sound.inRange_iff {a : Varray α} {l : List α} (h : Sound a l) {idx : Int} :
    InRange l idx ↔ 0 ≤ idx ∧ idx < a.used := by
  rw [InRange, h.length]

/-- The last step of an insertion or of an append, on a block that has room. -/
theorem sound_put {a : Varray α} {l : List α} (h : Sound a l) (hroom : a.used < a.capc)
    {i : Nat} (hi : i ≤ a.used) {x : α} {items : List (Option α)}
    (hlen : items.length = a.items.length)
    (hget : ∀ j, j ≠ i → j ≤ a.used →
      items[j]? = if i < j then a.items[j - 1]? else a.items[j]?) :
    Sound { a with items := items.set i (some x), used := a.used + 1 } (l.insertIdx i x) := by
  have hl := h.length
  have hil : i ≤ l.length := by omega
  apply Sound.of_slots h.first_pos h.capc_pow
  · rw [List.length_set, hlen]
    exact h.block
  · rw [List.length_insertIdx_of_le_length hil, hl]
  · exact hroom
  · intro j hj
    have hj' : j ≤ a.used := by
      rw [List.length_insertIdx_of_le_length hil] at hj
      omega
    show (items.set i (some x))[j]? = _
    rcases Nat.lt_trichotomy j i with hlt | heq | hgt
    · rw [List.getElem?_set_ne (by omega), hget j (by omega) hj', if_neg (by omega),
        h.getElem? (by omega), List.getElem?_insertIdx_of_lt hlt]
    · subst heq
      rw [List.getElem?_set_self (by have := h.block; omega), List.getElem?_insertIdx_self,
        if_pos hil]
    · rw [List.getElem?_set_ne (by omega), hget j (by omega) hj', if_pos hgt,
        h.getElem? (by omega), List.getElem?_insertIdx_of_gt hgt]

theorem varrayAdd_ok {a : Varray α} {l : List α} (h : Sound a l) {idx : Int}
    (hidx : 0 ≤ idx ∧ idx < a.used) (x : α) (hroom : a.used + 1 < a.roomy) :
    ∃ b, varrayAdd a idx (some x) = .ok (b, 0) ∧ Sound b (l.insertIdx idx.toNat x) := by
  obtain ⟨b, hb, hs, hused, hcapc, -, hlt⟩ := grow_ok h
  obtain ⟨k, rfl⟩ : ∃ k : Nat, idx = k := ⟨idx.toNat, by omega⟩
  have hk : k < a.used := by omega
  have hblock := hs.block
  obtain ⟨res, hres, hlen, hget⟩ := @shiftUp_ok _ b.items k (a.used + 1 - k) (by omega)
  refine ⟨{ b with items := res.set k (some x), used := b.used + 1 }, ?_, ?_⟩
  · rw [varrayAdd, if_neg (by omega), if_neg (by omega), if_neg (by simp), hb, ok_bind]
    simp only [Int.toNat_natCast, hused, hres, ok_bind]
    rw [setSlot_ok (by omega)]
    rfl
  · rw [Int.toNat_natCast]
    apply sound_put hs hlt (by omega) hlen
    intro j hne hj
    rw [hget j]
    by_cases hkj : k < j
    · rw [if_pos hkj, if_pos ⟨hkj, by omega⟩]
    · rw [if_neg hkj, if_neg (fun hc => hkj hc.1)]

/-- Without the free slot the first turn of the loop writes to the slot at `capc`. -/
theorem varrayAdd_error {a : Varray α} {l : List α} (h : Sound a l) {idx : Int}
    (hidx : 0 ≤ idx ∧ idx < a.used) (x : α) (hroom : ¬ a.used + 1 < a.roomy) :
    varrayAdd a idx (some x) = .error .bounds := by
  obtain ⟨b, hb, hs, hused, hcapc, -, hlt⟩ := grow_ok h
  have hblock := hs.block
  have hn : b.used + 1 - idx.toNat = b.used - idx.toNat + 1 := by omega
  rw [varrayAdd, if_neg (by omega), if_neg (by omega), if_neg (by simp), hb, ok_bind, hn,
    shiftUp_error (by omega), error_bind]

theorem varrayAddTail_ok {a : Varray α} {l : List α} (h : Sound a l) (x : α) :
    ∃ b, varrayAddTail a (some x) = .ok (b, 0) ∧ Sound b (l ++ [x]) := by
  obtain ⟨b, hb, hs, hused, -, -, hlt⟩ := grow_ok h
  refine ⟨{ b with items := b.items.set b.used (some x), used := b.used + 1 }, ?_, ?_⟩
  · rw [varrayAddTail, if_neg (by simp), hb, ok_bind, setSlot_ok (by have := hs.block; omega)]
    rfl
  · rw [← List.insertIdx_length_self, hs.length]
    apply sound_put hs hlt (Nat.le_refl _) rfl
    intro j hne hj
    rw [if_neg (by omega)]

theorem varraySet_ok {a : Varray α} {l : List α} (h : Sound a l) {idx : Int}
    (hidx : 0 ≤ idx ∧ idx < a.used) (x : α) :
    ∃ b, varraySet a idx (some x) = .ok (b, 0) ∧ Sound b (l.set idx.toNat x) := by
  obtain ⟨k, rfl⟩ : ∃ k : Nat, idx = k := ⟨idx.toNat, by omega⟩
  have hk : k < a.used := by omega
  have hblock := h.block
  have hu := h.used_le
  have hl := h.length
  have hne : a.items ≠ [] := by
    intro h0
    rw [h0, List.length_nil] at hblock
    omega
  refine ⟨{ a with items := a.items.set k (some x) }, ?_, ?_⟩
  · rw [varraySet, if_neg (by simp), if_neg (by omega), if_neg (by omega), if_neg hne,
      Int.toNat_natCast, setSlot_ok (by omega)]
    rfl
  · rw [Int.toNat_natCast]
    apply Sound.of_slots h.first_pos h.capc_pow
    · rw [List.length_set]
      exact hblock
    · rw [List.length_set, hl]
    · exact hu
    · intro j hj
      rw [List.length_set] at hj
      show (a.items.set k (some x))[j]? = _
      by_cases hjk : k = j
      · subst hjk
        rw [List.getElem?_set_self (by omega), List.getElem?_set_self hj]
      · rw [List.getElem?_set_ne hjk, List.getElem?_set_ne hjk, h.getElem? (by omega)]

theorem varrayGet_ok {a : Varray α} {l : List α} (h : Sound a l) {idx : Int}
    (hidx : 0 ≤ idx ∧ idx < a.used) : varrayGet a idx = .ok l[idx.toNat]? := by
  have hblock := h.block
  have hu := h.used_le
  have hne : a.items ≠ [] := by
    intro h0
    rw [h0, List.length_nil] at hblock
    omega
  rw [varrayGet, if_neg hne, if_neg (by omega), if_neg (by omega), getSlot,
    h.getElem? (by omega)]

/-- The last step of a removal, once the items behind `i` have moved down. -/
theorem sound_take_out {a : Varray α} {l : List α} (h : Sound a l) {i : Nat} (hi : i < a.used)
    {items : List (Option α)} (hlen : items.length = a.items.length)
    (hget : ∀ j, j + 1 < a.used →
      items[j]? = if i ≤ j then a.items[j + 1]? else a.items[j]?) :
    Sound { a with items := items, used := a.used - 1 } (l.eraseIdx i) := by
  have hl := h.length
  have hu := h.used_le
  have hil : i < l.length := by omega
  apply Sound.of_slots h.first_pos h.capc_pow
  · rw [hlen]
    exact h.block
  · rw [List.length_eraseIdx_of_lt hil, hl]
  · show a.used - 1 ≤ a.capc
    omega
  · intro j hj
    rw [List.length_eraseIdx_of_lt hil] at hj
    show items[j]? = _
    rw [hget j (by omega), List.getElem?_eraseIdx]
    by_cases hij : i ≤ j
    · rw [if_pos hij, if_neg (by omega), h.getElem? (by omega)]
    · rw [if_neg hij, if_pos (by omega), h.getElem? (by omega)]

theorem varrayDel_ok {a : Varray α} {l : List α} (h : Sound a l) {idx : Int}
    (hidx : 0 ≤ idx ∧ idx < a.used) (hroom : a.used < a.capc) :
    ∃ b, varrayDel a idx = .ok (b, l[idx.toNat]?) ∧ Sound b (l.eraseIdx idx.toNat) := by
  obtain ⟨b, hb, hs, hused, -, hfree⟩ := shrink_ok h
  obtain ⟨k, rfl⟩ : ∃ k : Nat, idx = k := ⟨idx.toNat, by omega⟩
  have hk : k < b.used := by omega
  have hlt : b.used < b.capc := hfree.mpr hroom
  have hblock := hs.block
  obtain ⟨res, hres, hlen, hget⟩ := @shiftDown_ok _ b.items k (b.used - k) (by omega)
  refine ⟨{ b with items := res.set b.used none, used := b.used - 1 }, ?_, ?_⟩
  · rw [varrayDel, if_neg (by omega), if_neg (by omega), hb, ok_bind]
    simp only [Int.toNat_natCast, getSlot, hs.getElem? hk, ok_bind, hres]
    rw [setSlot_ok (by omega)]
    rfl
  · rw [Int.toNat_natCast]
    apply sound_take_out hs hk (by rw [List.length_set, hlen])
    intro j hj
    rw [List.getElem?_set_ne (by omega), hget j]
    by_cases hkj : k ≤ j
    · rw [if_pos hkj, if_pos ⟨hkj, by omega⟩]
    · rw [if_neg hkj, if_neg (fun hc => hkj hc.1)]

/-- In a full block the last turn of the loop reads the slot at `capc`. -/
theorem varrayDel_error {a : Varray α} {l : List α} (h : Sound a l) {idx : Int}
    (hidx : 0 ≤ idx ∧ idx < a.used) (hroom : ¬ a.used < a.capc) :
    varrayDel a idx = .error .bounds := by
  obtain ⟨b, hb, hs, hused, -, hfree⟩ := shrink_ok h
  have hblock := hs.block
  have hu := hs.used_le
  have hfull : ¬ b.used < b.capc := fun hc => hroom (hfree.mp hc)
  rw [varrayDel, if_neg (by omega), if_neg (by omega), hb, ok_bind, getSlot_ok (by omega),
    ok_bind, shiftDown_error (by omega) (by omega), error_bind]

theorem varrayPopTail_ok {a : Varray α} {l : List α} (h : Sound a l) (hne : l ≠ []) :
    ∃ b, varrayPopTail a = .ok (b, l.getLast?) ∧ Sound b l.dropLast := by
  obtain ⟨b, hb, hs, hused, -, -⟩ := shrink_ok h
  have hl := hs.length
  have hblock := hs.block
  have hu := hs.used_le
  have hpos : 0 < b.used := by
    have := List.length_pos_of_ne_nil hne
    omega
  refine ⟨{ b with items := b.items.set (b.used - 1) none, used := b.used - 1 }, ?_, ?_⟩
  · rw [varrayPopTail, hb, ok_bind, if_neg (by omega)]
    simp only [getSlot, hs.getElem? (show b.used - 1 < b.used by omega), ok_bind]
    rw [setSlot_ok (by omega), ok_bind, List.getLast?_eq_getElem?, hl]
    rfl
  · rw [← List.eraseIdx_length_sub_one, hl]
    apply sound_take_out hs (by omega) (by rw [List.length_set])
    intro j hj
    rw [List.getElem?_set_ne (by omega), if_neg (by omega)]

/-! ## Indices out of range -/

section OutOfRange

variable {a : Varray α} {idx : Int} (hidx : ¬ (0 ≤ idx ∧ idx < a.used))

include hidx

theorem varrayAdd_out (new : Option α) : varrayAdd a idx new = .ok (a, -1) := by
  rw [varrayAdd]
  by_cases hneg : idx < 0
  · rw [if_pos hneg]
  · rw [if_neg hneg, if_pos (by omega)]

theorem varraySet_out (item : Option α) : varraySet a idx item = .ok (a, -1) := by
  rw [varraySet]
  by_cases hnone : item = none
  · rw [if_pos hnone]
  · by_cases hneg : idx < 0
    · rw [if_neg hnone, if_pos hneg]
    · rw [if_neg hnone, if_neg hneg, if_pos (by omega)]

theorem varrayGet_out : varrayGet a idx = .ok none := by
  rw [varrayGet]
  by_cases hempty : a.items = []
  · rw [if_pos hempty]
  · by_cases hneg : idx < 0
    · rw [if_neg hempty, if_pos hneg]
    · rw [if_neg hempty, if_neg hneg, if_pos (by omega)]

theorem varrayDel_out : varrayDel a idx = .ok (a, none) := by
  rw [varrayDel]
  by_cases hneg : idx < 0
  · rw [if_pos hneg]
  · rw [if_neg hneg, if_pos (by omega)]

end OutOfRange

/-! ## Runs -/

theorem exec_fits {a : Varray α} {l : List α} {op : VarrayOp α} (h : Sound a l)
    (hcall : Callable l op) (hfits : Fits a op) :
    ∃ b, varrayExec a op = .ok (b, (listExec l op).2) ∧ Sound b (listExec l op).1 := by
  cases op with
  | add idx item =>
    cases item with
    | none =>
      have hnone : varrayAdd a idx none = .ok (a, -1) := by
        rw [varrayAdd, if_pos rfl, ite_self, ite_self]
      refine ⟨a, ?_, h⟩
      simp only [varrayExec, hnone]
      rfl
    | some x =>
      by_cases hidx : 0 ≤ idx ∧ idx < a.used
      · have hroom : a.used + 1 < a.roomy := by
          rcases hfits with hno | hno | hroom
          · exact absurd hno (by simp)
          · exact absurd hidx hno
          · exact hroom
        obtain ⟨b, hb, hs⟩ := varrayAdd_ok h hidx x hroom
        refine ⟨b, ?_, ?_⟩
        · simp only [varrayExec, hb, listExec, if_pos (h.inRange_iff.mpr hidx)]
          rfl
        · simpa only [listExec, if_pos (h.inRange_iff.mpr hidx)] using hs
      · have hout : ¬ InRange l idx := fun hc => hidx (h.inRange_iff.mp hc)
        refine ⟨a, ?_, by simpa only [listExec, if_neg hout] using h⟩
        simp only [varrayExec, varrayAdd_out hidx, listExec, if_neg hout]
        rfl
  | addTail item =>
    cases item with
    | none => exact ⟨a, rfl, h⟩
    | some x =>
      obtain ⟨b, hb, hs⟩ := varrayAddTail_ok h x
      exact ⟨b, by simp only [varrayExec, hb]; rfl, hs⟩
  | set idx item =>
    cases item with
    | none => exact ⟨a, rfl, h⟩
    | some x =>
      by_cases hidx : 0 ≤ idx ∧ idx < a.used
      · obtain ⟨b, hb, hs⟩ := varraySet_ok h hidx x
        refine ⟨b, ?_, ?_⟩
        · simp only [varrayExec, hb, listExec, if_pos (h.inRange_iff.mpr hidx)]
          rfl
        · simpa only [listExec, if_pos (h.inRange_iff.mpr hidx)] using hs
      · have hout : ¬ InRange l idx := fun hc => hidx (h.inRange_iff.mp hc)
        refine ⟨a, ?_, by simpa only [listExec, if_neg hout] using h⟩
        simp only [varrayExec, varraySet_out hidx, listExec, if_neg hout]
        rfl
  | get idx =>
    refine ⟨a, ?_, h⟩
    by_cases hidx : 0 ≤ idx ∧ idx < a.used
    · simp only [varrayExec, varrayGet_ok h hidx, listExec, if_pos (h.inRange_iff.mpr hidx)]
      rfl
    · have hout : ¬ InRange l idx := fun hc => hidx (h.inRange_iff.mp hc)
      simp only [varrayExec, varrayGet_out hidx, listExec, if_neg hout]
      rfl
  | del idx =>
    by_cases hidx : 0 ≤ idx ∧ idx < a.used
    · have hroom : a.used < a.capc := hfits.resolve_left (fun hno => hno hidx)
      obtain ⟨b, hb, hs⟩ := varrayDel_ok h hidx hroom
      refine ⟨b, ?_, ?_⟩
      · simp only [varrayExec, hb, listExec, if_pos (h.inRange_iff.mpr hidx)]
        rfl
      · simpa only [listExec, if_pos (h.inRange_iff.mpr hidx)] using hs
    · have hout : ¬ InRange l idx := fun hc => hidx (h.inRange_iff.mp hc)
      refine ⟨a, ?_, by simpa only [listExec, if_neg hout] using h⟩
      simp only [varrayExec, varrayDel_out hidx, listExec, if_neg hout]
      rfl
  | popTail =>
    obtain ⟨b, hb, hs⟩ := varrayPopTail_ok h hcall
    exact ⟨b, by simp only [varrayExec, hb]; rfl, hs⟩

theorem exec_not_fits {a : Varray α} {l : List α} {op : VarrayOp α} (h : Sound a l)
    (hfits : ¬ Fits a op) : varrayExec a op = .error .bounds := by
  cases op with
  | add idx item =>
    simp only [Fits, not_or, not_not] at hfits
    obtain ⟨hitem, hidx, hroom⟩ := hfits
    obtain ⟨x, rfl⟩ := Option.ne_none_iff_exists'.mp hitem
    rw [varrayExec, varrayAdd_error h hidx x hroom, error_bind]
  | del idx =>
    simp only [Fits, not_or, not_not] at hfits
    rw [varrayExec, varrayDel_error h hfits.1 hfits.2, error_bind]
  | addTail item => exact absurd trivial hfits
  | set idx item => exact absurd trivial hfits
  | get idx => exact absurd trivial hfits
  | popTail => exact absurd trivial hfits

/-- A run from `varray_init`, of calls that a caller may make of the reference list as it then is,
stays inside its blocks and answers as that list does, call after call, exactly when each of its
calls fits: an insertion leaves a free slot behind the items, a removal starts from a block that is
not full. -/
theorem varray_follows_iff (firstCapc : Nat) (ops : List (VarrayOp α))
    (hcall : Admits listExec Callable [] ops) :
    Follows varrayExec listExec Represents (varrayInit firstCapc) [] ops ↔
      Guarded varrayExec Fits (varrayInit firstCapc) ops := by
  apply follows_iff_guarded (I := Sound) (P := Callable)
  · intro a l h
    exact h.toRepresents
  · intro a l op h hc hf
    exact exec_fits h hc hf
  · intro a l op h _ hf
    exact ⟨.bounds, exec_not_fits h hf⟩
  · exact sound_init firstCapc
  · exact hcall

/-- Two appends and a removal at the front, with the default first capacity. -/
theorem varray_follows_append_remove :
    Admits listExec Callable [] [.addTail (some 'a'), .addTail (some 'b'), .del 0] ∧
    (Follows varrayExec listExec Represents (varrayInit 0) []
        [.addTail (some 'a'), .addTail (some 'b'), .del 0] ↔
      Guarded varrayExec Fits (varrayInit 0)
        [.addTail (some 'a'), .addTail (some 'b'), .del 0]) :=
  ⟨⟨trivial, trivial, trivial, trivial⟩,
    varray_follows_iff 0 _ ⟨trivial, trivial, trivial, trivial⟩⟩

/-- One item in a block of one slot: its removal reads the slot at index 1. -/
theorem varray_removal_leaves_block :
    ¬ Follows varrayExec listExec Represents (varrayInit 1) [] [.addTail (some 'a'), .del 0] := by
  rintro ⟨-, a, r, ha, -, -, b, r', hb, -⟩
  have hstep : varrayExec (varrayInit 1) (.addTail (some 'a')) =
      .ok ({ used := 1, capc := 1, first := 1, items := [some 'a'] }, .status 0) := rfl
  rw [hstep] at ha
  cases ha
  have hfault : varrayExec { used := 1, capc := 1, first := 1, items := [some 'a'] } (.del 0) =
      .error .bounds := rfl
  rw [hfault] at hb
  cases hb

end Vdht.Utils
