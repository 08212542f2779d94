import Vdht.Def
import Vdht.Lib.CInt

/-!
# Samples of the system

The ratios of `vsys.c`. The share of busy time since the previous sample is taken from the CPU
counters of `/proc/stat`, the share of used memory from `/proc/meminfo`, both in tenths and both
in `int` arithmetic. The counters of the previous sample are static variables.

A reading is `none` where the file cannot be opened or read, and the numbers `sscanf` stores
otherwise. On counters that only grow the CPU ratio is computed exactly when the sample fits
after the previous one (`CpuFits`), and then it lies in `[0, 10]`; so does the memory ratio on a
sample that fits (`MemFits`).
-/

namespace Vdht.Utils

open Lib

/-- The exact result of an `int` operation. -/
def int32 (x : Int) : Res Int := checked .overflow 31 x

/-- The division of two `int`s, which faults for a zero divisor and where the quotient is out of
range. -/
def divInt32 (a b : Int) : Res Int := checkedDiv .division .overflow 31 a b

/-- The numbers read from the first line of `/proc/stat`. -/
structure CpuStat where
  user : Int
  nice : Int
  sys : Int
  idle : Int

/-- The numbers read from `/proc/meminfo`. -/
structure MemStat where
  total : Int
  mfree : Int

/-- The static variables of `vsys_get_cpu_ratio`. -/
structure CpuPrev where
  prev_idle : Int
  prev_busy : Int

/-- Their values when the program starts. -/
def cpuPrevInit : CpuPrev := ⟨0, 0⟩

/-- The static variables and `*ratio` behind the call, and its result. -/
def vsysGetCpuRatio (prev : CpuPrev) (ratio : Int) (reading : Option CpuStat) :
    Res (CpuPrev × Int × Int) :=
  match reading with
  | none => .ok (prev, ratio, -1)
  | some c => do
    let userSys ← int32 (c.user + c.sys)
    let busy ← int32 (userSys + c.nice)
    let busyAmount ← int32 (busy - prev.prev_busy)
    let idleAmount ← int32 (c.idle - prev.prev_idle)
    let tenfold ← int32 (busyAmount * 10)
    let amount ← int32 (busyAmount + idleAmount)
    let divisor ← int32 (amount + 1)
    let share ← divInt32 tenfold divisor
    pure (⟨c.idle, busy⟩, share, 0)

/-- `*ratio` behind the call, and its result. -/
def vsysGetMemRatio (ratio : Int) (reading : Option MemStat) : Res (Int × Int) :=
  match reading with
  | none => .ok (ratio, -1)
  | some m => do
    let used ← int32 (m.total - m.mfree)
    let tenfold ← int32 (used * 10)
    let share ← divInt32 tenfold m.total
    pure (share, 0)

/-- `vsys_get_io_ratio`, which leaves the ratio as it was and reports success. -/
def vsysGetIoRatio (ratio : Int) : Int × Int := (ratio, 0)

/-- `*up_ratio` and `*down_ratio` behind the call, and its result. -/
def vsysGetNetRatio (up_ratio down_ratio : Int) : (Int × Int) × Int := ((up_ratio, down_ratio), 0)

/-! ## Operations on `int` -/

theorem int32_ok_iff {x y : Int} : int32 x = .ok y ↔ InSigned 31 x ∧ x = y := checked_ok_iff

theorem int32_ok {x : Int} (h : InSigned 31 x) : int32 x = .ok x := checked_ok h

theorem divInt32_ok_iff {a b y : Int} :
    divInt32 a b = .ok y ↔ b ≠ 0 ∧ InSigned 31 (a.tdiv b) ∧ a.tdiv b = y := checkedDiv_ok_iff

/-! ## The CPU ratio -/

/-- The ticks in which the processor was not idle. -/
def CpuStat.busy (c : CpuStat) : Int := c.user + c.sys + c.nice

/-- Every counter of `b` is at least that of `a`. -/
def CpuStat.Since (a b : CpuStat) : Prop :=
  a.user ≤ b.user ∧ a.nice ≤ b.nice ∧ a.sys ≤ b.sys ∧ a.idle ≤ b.idle

/-- Non-negative values of `int`. -/
def CpuStat.Counters (c : CpuStat) : Prop :=
  (0 ≤ c.user ∧ InSigned 31 c.user) ∧ (0 ≤ c.nice ∧ InSigned 31 c.nice) ∧
    (0 ≤ c.sys ∧ InSigned 31 c.sys) ∧ 0 ≤ c.idle ∧ InSigned 31 c.idle

instance (a b : CpuStat) : Decidable (a.Since b) := inferInstanceAs (Decidable (_ ∧ _))

instance (c : CpuStat) : Decidable c.Counters := inferInstanceAs (Decidable (_ ∧ _))

/-- The static variables after the sample `c`. -/
def CpuStat.asPrev (c : CpuStat) : CpuPrev := ⟨c.idle, c.busy⟩

/-- The counters of a machine that just started. -/
def CpuStat.start : CpuStat := ⟨0, 0, 0, 0⟩

theorem counters_start : CpuStat.start.Counters := by decide

@[simp] theorem CpuStat.prev_idle_asPrev (c : CpuStat) : c.asPrev.prev_idle = c.idle := rfl

@[simp] theorem CpuStat.prev_busy_asPrev (c : CpuStat) : c.asPrev.prev_busy = c.busy := rfl

/-- The sample `c` can be computed with, after the sample `last`. -/
def CpuFits (last c : CpuStat) : Prop :=
  c.busy < 2 ^ 31 ∧ (c.busy - last.busy) * 10 < 2 ^ 31 ∧
    c.busy - last.busy + (c.idle - last.idle) + 1 < 2 ^ 31

instance (last c : CpuStat) : Decidable (CpuFits last c) := inferInstanceAs (Decidable (_ ∧ _))

/-- The busy share of the time between the two samples, in tenths. -/
def cpuShare (last c : CpuStat) : Int :=
  ((c.busy - last.busy) * 10).tdiv (c.busy - last.busy + (c.idle - last.idle) + 1)

section Cpu

variable {last c : CpuStat}

theorem CpuStat.Since.busy_le (h : last.Since c) : last.busy ≤ c.busy := by
  obtain ⟨huser, hnice, hsys, -⟩ := h
  exact Int.add_le_add (Int.add_le_add huser hsys) hnice

theorem CpuStat.Counters.busy_nonneg (h : c.Counters) : 0 ≤ c.busy :=
  Int.add_nonneg (Int.add_nonneg h.1.1 h.2.2.1.1) h.2.1.1

theorem cpuShare_range (h : last.Since c) : 0 ≤ cpuShare last c ∧ cpuShare last c ≤ 10 := by
  have hbusy := h.busy_le
  have hidle : last.idle ≤ c.idle := h.2.2.2
  have hpart : 0 ≤ c.busy - last.busy := by omega
  have hwhole : c.busy - last.busy ≤ c.busy - last.busy + (c.idle - last.idle) + 1 := by omega
  have hpos : 0 < c.busy - last.busy + (c.idle - last.idle) + 1 := by omega
  exact ⟨share_nonneg hpart hpos (by omega), share_le hpart hwhole hpos (by omega)⟩

theorem vsysGetCpuRatio_ok_iff (hlast : last.Counters) (hc : c.Counters) (h : last.Since c)
    (ratio : Int) (r : CpuPrev × Int × Int) :
    vsysGetCpuRatio last.asPrev ratio (some c) = .ok r ↔
      CpuFits last c ∧ r = (c.asPrev, cpuShare last c, 0) := by
  have hrange := cpuShare_range h
  have hbusy := h.busy_le
  have hidle : last.idle ≤ c.idle := h.2.2.2
  have hlast0 := hlast.busy_nonneg
  have hlasti : 0 ≤ last.idle := hlast.2.2.2.1
  have hc0 := hc.busy_nonneg
  obtain ⟨⟨huser, -⟩, ⟨hnice, -⟩, ⟨hsys, -⟩, -, hidle'⟩ := hc
  simp only [vsysGetCpuRatio, bind_ok, int32_ok_iff, divInt32_ok_iff, pure_eq_ok, Except.ok.injEq,
    CpuStat.prev_idle_asPrev, CpuStat.prev_busy_asPrev]
  constructor
  · rintro ⟨_, ⟨-, rfl⟩, _, ⟨hb, rfl⟩, _, ⟨-, rfl⟩, _, ⟨-, rfl⟩, _, ⟨hten, rfl⟩, _, ⟨-, rfl⟩,
      _, ⟨hdiv, rfl⟩, _, ⟨-, -, rfl⟩, rfl⟩
    exact ⟨⟨hb.2, hten.2, hdiv.2⟩, rfl⟩
  · rintro ⟨⟨hb, hten, hdiv⟩, rfl⟩
    have hsum : c.busy = c.user + c.sys + c.nice := rfl
    have hidle'' := hidle'.2
    refine ⟨_, ⟨.of_nonneg (by omega) (by omega), rfl⟩, c.busy, ⟨.of_nonneg hc0 hb, rfl⟩,
      c.busy - last.busy, ⟨.of_nonneg (by omega) (by omega), rfl⟩,
      c.idle - last.idle, ⟨.of_nonneg (by omega) (by omega), rfl⟩,
      _, ⟨.of_nonneg (by omega) hten, rfl⟩, _, ⟨.of_nonneg (by omega) (by omega), rfl⟩,
      _, ⟨.of_nonneg (by omega) hdiv, rfl⟩, cpuShare last c, ⟨by omega, ?_, rfl⟩, rfl⟩
    exact .of_nonneg hrange.1 (hrange.2.trans_lt (by omega))

end Cpu

/-! ## The memory ratio -/

/-- Non-negative values of `int`, of which no more is free than there is. -/
def MemStat.Counters (m : MemStat) : Prop :=
  (0 ≤ m.total ∧ InSigned 31 m.total) ∧ 0 ≤ m.mfree ∧ m.mfree ≤ m.total

instance (m : MemStat) : Decidable m.Counters := inferInstanceAs (Decidable (_ ∧ _))

/-- The sample `m` can be computed with. -/
def MemFits (m : MemStat) : Prop := 0 < m.total ∧ (m.total - m.mfree) * 10 < 2 ^ 31

instance (m : MemStat) : Decidable (MemFits m) := inferInstanceAs (Decidable (_ ∧ _))

/-- The share of the memory in use, in tenths. -/
def memShare (m : MemStat) : Int := ((m.total - m.mfree) * 10).tdiv m.total

section Mem

variable {m : MemStat}

theorem memShare_range (hm : m.Counters) (hpos : 0 < m.total) :
    0 ≤ memShare m ∧ memShare m ≤ 10 := by
  obtain ⟨-, hfree, hle⟩ := hm
  have hpart : 0 ≤ m.total - m.mfree := by omega
  exact ⟨share_nonneg hpart hpos (by omega), share_le hpart (by omega) hpos (by omega)⟩

theorem vsysGetMemRatio_ok_iff (hm : m.Counters) (ratio : Int) (r : Int × Int) :
    vsysGetMemRatio ratio (some m) = .ok r ↔ MemFits m ∧ r = (memShare m, 0) := by
  simp only [vsysGetMemRatio, bind_ok, int32_ok_iff, divInt32_ok_iff, pure_eq_ok, Except.ok.injEq]
  have hrange := memShare_range hm
  obtain ⟨⟨htotal, htotal'⟩, hfree, hle⟩ := hm
  constructor
  · rintro ⟨_, ⟨-, rfl⟩, _, ⟨hten, rfl⟩, _, ⟨hne, -, rfl⟩, rfl⟩
    exact ⟨⟨lt_of_le_of_ne htotal hne.symm, hten.2⟩, rfl⟩
  · rintro ⟨⟨hpos, hten⟩, rfl⟩
    have hused : m.total - m.mfree < 2 ^ 31 := by omega
    refine ⟨_, ⟨.of_nonneg (by omega) hused, rfl⟩, _, ⟨.of_nonneg (by omega) hten, rfl⟩,
      memShare m, ⟨by omega, ?_, rfl⟩, rfl⟩
    exact .of_nonneg (hrange hpos).1 ((hrange hpos).2.trans_lt (by omega))

end Mem

end Vdht.Utils
