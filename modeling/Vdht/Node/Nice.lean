import Vdht.Utils.Vsys

/-!
# The nice value of a node

`vnode_nice.c` weighs five ratios into one number. A ratio below its criteria counts as it is, a
higher one counts as 10, each times its factor; a tenth of the sum is the nice value. The CPU and
the memory ratio are sampled at every call, the others keep their initial value.

From the initial state, a run over samples whose counters only grow meets no fault exactly when
every sample fits after the one before (`Fits`). Then the ratios lie in `[0, 10]` and the nice
value in `[0, 14]`, and it does not fall when a ratio grows.
-/

namespace Vdht.Node

open Lib Utils

/-- `struct vnice_res_status`: the measured ratio of a resource, the ratio that counts as busy, and
the weight of the resource. -/
structure VniceResStatus where
  ratio : Int
  criteria : Int
  factor : Int

/-- `struct vnode_nice`: the five resources and the value that was given last. -/
structure VnodeNice where
  cpu : VniceResStatus
  mem : VniceResStatus
  io : VniceResStatus
  net_up : VniceResStatus
  net_down : VniceResStatus
  prev_nice_val : Int

/-- The ratio from which on the processor counts as busy, in tenths. -/
def CPU_CRITERIA : Int := 8
/-- The weight of the processor. -/
def CPU_FACTOR : Int := 7
/-- The ratio of the processor before the first measurement. -/
def CPU_RATIO : Int := 2
/-- The ratio from which on the memory counts as busy, in tenths. -/
def MEM_CRITERIA : Int := 8
/-- The weight of the memory. -/
def MEM_FACTOR : Int := 6
/-- The ratio of the memory before the first measurement. -/
def MEM_RATIO : Int := 2
/-- The ratio from which on the disks count as busy, in tenths. -/
def IO_CRITERIA : Int := 4
/-- The weight of the disks. -/
def IO_FACTOR : Int := 3
def IO_RATIO : Int := 2
def NET_UP_CRITERIA : Int := 8
/-- The weight of what is sent. -/
def NET_UP_FACTOR : Int := 3
def NET_UP_RATIO : Int := 2
def NET_DOWN_CRITERIA : Int := 5
/-- The weight of what is received. -/
def NET_DOWN_FACTOR : Int := 2
def NET_DOWN_RATIO : Int := 2

/-- `vnode_nice_init`: all resources are little used at the start. -/
def vnodeNiceInit : VnodeNice where
  cpu := ⟨ CPU_RATIO, CPU_CRITERIA, CPU_FACTOR⟩
  mem := ⟨ MEM_RATIO, MEM_CRITERIA, MEM_FACTOR⟩
  io := ⟨ IO_RATIO, IO_CRITERIA, IO_FACTOR⟩
  net_up := ⟨ NET_UP_RATIO, NET_UP_CRITERIA, NET_UP_FACTOR⟩
  net_down := ⟨ NET_DOWN_RATIO, NET_DOWN_CRITERIA, NET_DOWN_FACTOR⟩
  prev_nice_val := 2

/-- The rows of `node_res_status_p`. -/
def VnodeNice.statuses (n : VnodeNice) : List VniceResStatus :=
  [n.cpu, n.mem, n.io, n.net_up, n.net_down]

/-- One round of the loop over the rows. -/
def addNice (nice_val : Int) (s : VniceResStatus) : Res Int := do
  let weighted ← int32 (if s.ratio < s.criteria then s.ratio * s.factor else 10 * s.factor)
  int32 (nice_val + weighted)

/-- The static variables of the samples, the node's state and the result. -/
def vnodeNiceGetNice (prev : CpuPrev) (n : VnodeNice) (cpuReading : Option CpuStat)
    (memReading : Option MemStat) : Res (CpuPrev × VnodeNice × Int) := do
  let cpu ← vsysGetCpuRatio prev n.cpu.ratio cpuReading
  let mem ← vsysGetMemRatio n.mem.ratio memReading
  let io := vsysGetIoRatio n.io.ratio
  let net := vsysGetNetRatio n.net_up.ratio n.net_down.ratio
  let sampled : VnodeNice := { n with
    cpu := { n.cpu with ratio := cpu.2.1 }
    mem := { n.mem with ratio := mem.1 }
    io := { n.io with ratio := io.1 }
    net_up := { n.net_up with ratio := net.1.1 }
    net_down := { n.net_down with ratio := net.1.2 } }
  if cpu.2.2 + mem.2 + io.2 + net.2 < 0 then
    pure (cpu.1, sampled, sampled.prev_nice_val)
  else
    let sum ← sampled.statuses.foldlM addNice 0
    let nice_val ← divInt32 sum 10
    pure (cpu.1, { sampled with prev_nice_val := nice_val }, nice_val)

/-! ## Runs -/

/-- What is read at one call. -/
structure Sample where
  cpu : CpuStat
  mem : MemStat

/-- What one call computes. -/
structure NiceCall where
  cpuRatio : Int
  memRatio : Int
  nice : Int

/-- A run of measurements, with the two ratios and the value of each call. -/
def getNiceRun (prev : CpuPrev) (n : VnodeNice) : List Sample → Res (List NiceCall)
  | [] => .ok []
  | x :: xs => do
    let r ← vnodeNiceGetNice prev n (some x.cpu) (some x.mem)
    let calls ← getNiceRun r.1 r.2.1 xs
    pure (⟨r.2.1.cpu.ratio, r.2.1.mem.ratio, r.2.2⟩ :: calls)

/-- Counters that are values of `int` and, from `last` on, never decrease. -/
def Admitted (last : CpuStat) : List Sample → Prop
  | [] => True
  | x :: xs => (x.cpu.Counters ∧ last.Since x.cpu ∧ x.mem.Counters) ∧ Admitted x.cpu xs

/-- Every sample can be computed with, after the one before. -/
def Fits (last : CpuStat) : List Sample → Prop
  | [] => True
  | x :: xs => (CpuFits last x.cpu ∧ MemFits x.mem) ∧ Fits x.cpu xs

/-- The calls of the program on the samples `xs`. -/
def niceCalls (xs : List Sample) : Res (List NiceCall) := getNiceRun cpuPrevInit vnodeNiceInit xs

/-- The ratios are tenths and the value is between 0 and 14. -/
def NiceCall.InRange (c : NiceCall) : Prop :=
  (0 ≤ c.cpuRatio ∧ c.cpuRatio ≤ 10) ∧ (0 ≤ c.memRatio ∧ c.memRatio ≤ 10) ∧
    0 ≤ c.nice ∧ c.nice ≤ 14

/-- On no samples a nice value is lower than that of `c` where neither ratio is. -/
def NiceCall.Graded (c : NiceCall) : Prop :=
  ∀ xs calls, Admitted .start xs → niceCalls xs = .ok calls →
    ∀ d ∈ calls, c.cpuRatio ≤ d.cpuRatio → c.memRatio ≤ d.memRatio → c.nice ≤ d.nice

/-! ## The weighing -/

/-- What a ratio counts. -/
def weight (criteria factor ratio : Int) : Int :=
  if ratio < criteria then ratio * factor else 10 * factor

/-- The value that two ratios give when the three resources that are not measured stay as they were
at the start. -/
def niceOf (cpuRatio memRatio : Int) : Int :=
  (weight CPU_CRITERIA CPU_FACTOR cpuRatio + weight MEM_CRITERIA MEM_FACTOR memRatio + 16) / 10

theorem weight_mono {criteria factor a b : Int} (hc : criteria ≤ 10) (hf : 0 ≤ factor)
    (hab : a ≤ b) : weight criteria factor a ≤ weight criteria factor b := by
  simp only [weight]
  split_ifs with ha hb hb
  · exact mul_le_mul_of_nonneg_right hab hf
  · exact mul_le_mul_of_nonneg_right (by omega) hf
  · omega
  · exact le_rfl

theorem weight_range {criteria factor ratio : Int} (hf : 0 ≤ factor) (h0 : 0 ≤ ratio)
    (hratio : ratio ≤ 10) :
    0 ≤ weight criteria factor ratio ∧ weight criteria factor ratio ≤ 10 * factor := by
  rw [weight]
  split
  · exact ⟨mul_nonneg h0 hf, mul_le_mul_of_nonneg_right hratio hf⟩
  · exact ⟨mul_nonneg (by omega) hf, le_rfl⟩

theorem niceOf_mono {a b a' b' : Int} (ha : a ≤ a') (hb : b ≤ b') : niceOf a b ≤ niceOf a' b' := by
  have hcpu : weight CPU_CRITERIA CPU_FACTOR a ≤ weight CPU_CRITERIA CPU_FACTOR a' :=
    weight_mono (by decide) (by decide) ha
  have hmem : weight MEM_CRITERIA MEM_FACTOR b ≤ weight MEM_CRITERIA MEM_FACTOR b' :=
    weight_mono (by decide) (by decide) hb
  simp only [niceOf]
  omega

theorem niceOf_range {a b : Int} (ha : 0 ≤ a ∧ a ≤ 10) (hb : 0 ≤ b ∧ b ≤ 10) :
    0 ≤ niceOf a b ∧ niceOf a b ≤ 14 := by
  have hcpu : 0 ≤ weight CPU_CRITERIA CPU_FACTOR a ∧ weight CPU_CRITERIA CPU_FACTOR a ≤ 70 :=
    weight_range (by decide) ha.1 ha.2
  have hmem : 0 ≤ weight MEM_CRITERIA MEM_FACTOR b ∧ weight MEM_CRITERIA MEM_FACTOR b ≤ 60 :=
    weight_range (by decide) hb.1 hb.2
  simp only [niceOf]
  omega

/-- A row whose ratio is in tenths and whose factor is one of the small constants. -/
def Moderate (s : VniceResStatus) : Prop :=
  (0 ≤ s.ratio ∧ s.ratio ≤ 10) ∧ 0 ≤ s.factor ∧ s.factor ≤ 10

instance (s : VniceResStatus) : Decidable (Moderate s) := inferInstanceAs (Decidable (_ ∧ _))

theorem addNice_ok {v : Int} {s : VniceResStatus} (hs : Moderate s) (hv : 0 ≤ v)
    (hroom : v + 100 < 2 ^ 31) : addNice v s = .ok (v + weight s.criteria s.factor s.ratio) := by
  obtain ⟨hratio, hfactor, hten⟩ := hs
  have hw : 0 ≤ weight s.criteria s.factor s.ratio ∧ weight s.criteria s.factor s.ratio ≤
      10 * s.factor := weight_range hfactor hratio.1 hratio.2
  have hsmall : InSigned 31 (weight s.criteria s.factor s.ratio) := .of_nonneg hw.1 (by omega)
  have hsum : InSigned 31 (v + weight s.criteria s.factor s.ratio) :=
    .of_nonneg (by omega) (by omega)
  rw [addNice, ← weight, int32_ok hsmall, ok_bind, int32_ok hsum]

theorem foldlM_addNice (l : List VniceResStatus) {v : Int} (hl : ∀ s ∈ l, Moderate s) (hv : 0 ≤ v)
    (hroom : v + 100 * l.length < 2 ^ 31) :
    l.foldlM addNice v =
      .ok (v + (l.map fun s => weight s.criteria s.factor s.ratio).sum) := by
  induction l generalizing v with
  | nil => simp
  | cons s l ih =>
    rw [List.forall_mem_cons] at hl
    rw [List.length_cons] at hroom
    have hw : 0 ≤ weight s.criteria s.factor s.ratio ∧ weight s.criteria s.factor s.ratio ≤
        10 * s.factor := weight_range hl.1.2.1 hl.1.1.1 hl.1.1.2
    have hten := hl.1.2.2
    rw [List.foldlM_cons, addNice_ok hl.1 hv (by omega), ok_bind,
      ih hl.2 (by omega) (by omega), List.map_cons, List.sum_cons, Int.add_assoc]

/-! ## One call -/

/-- The state in which the CPU and the memory ratio have been sampled. -/
def VnodeNice.sampledAt (cpuRatio memRatio nice : Int) : VnodeNice := { vnodeNiceInit with
  cpu := { vnodeNiceInit.cpu with ratio := cpuRatio }
  mem := { vnodeNiceInit.mem with ratio := memRatio }
  prev_nice_val := nice }

theorem moderate_init : ∀ s ∈ vnodeNiceInit.statuses, Moderate s := by decide

theorem moderate_sampledAt {a b v : Int} (ha : 0 ≤ a ∧ a ≤ 10) (hb : 0 ≤ b ∧ b ≤ 10) :
    ∀ s ∈ (VnodeNice.sampledAt a b v).statuses, Moderate s := by
  have hinit := moderate_init
  simp only [VnodeNice.statuses, List.forall_mem_cons] at hinit ⊢
  exact ⟨⟨ha, hinit.1.2⟩, ⟨hb, hinit.2.1.2⟩, hinit.2.2⟩

theorem statuses_sum {a b v : Int} (ha : 0 ≤ a ∧ a ≤ 10) (hb : 0 ≤ b ∧ b ≤ 10) :
    (VnodeNice.sampledAt a b v).statuses.foldlM addNice 0 =
      .ok (weight CPU_CRITERIA CPU_FACTOR a + weight MEM_CRITERIA MEM_FACTOR b + 16) := by
  have hroom : (0 : Int) + 100 * ((VnodeNice.sampledAt a b v).statuses.length : Nat) < 2 ^ 31 := by
    simp [VnodeNice.statuses]
  rw [foldlM_addNice _ (moderate_sampledAt ha hb) le_rfl hroom]
  have hrest : weight IO_CRITERIA IO_FACTOR IO_RATIO + (weight NET_UP_CRITERIA NET_UP_FACTOR
      NET_UP_RATIO + (weight NET_DOWN_CRITERIA NET_DOWN_FACTOR NET_DOWN_RATIO + 0)) = 16 := rfl
  simp only [VnodeNice.statuses, VnodeNice.sampledAt, vnodeNiceInit, List.map_cons, List.map_nil,
    List.sum_cons, List.sum_nil, hrest, Int.zero_add, Int.add_assoc]

section Call

variable {last : CpuStat} {x : Sample} {a b v : Int}

theorem vnodeNiceGetNice_fits (hlast : last.Counters) (hcpu : x.cpu.Counters)
    (hsince : last.Since x.cpu) (hmem : x.mem.Counters) (hcfits : CpuFits last x.cpu)
    (hmfits : MemFits x.mem) :
    vnodeNiceGetNice last.asPrev (.sampledAt a b v) (some x.cpu) (some x.mem) =
      .ok (x.cpu.asPrev, .sampledAt (cpuShare last x.cpu) (memShare x.mem)
        (niceOf (cpuShare last x.cpu) (memShare x.mem)),
        niceOf (cpuShare last x.cpu) (memShare x.mem)) := by
  have hc := cpuShare_range hsince
  have hm := memShare_range hmem hmfits.1
  have hsum := statuses_sum (v := v) hc hm
  have hnice := niceOf_range hc hm
  have htenth : (weight CPU_CRITERIA CPU_FACTOR (cpuShare last x.cpu) +
      weight MEM_CRITERIA MEM_FACTOR (memShare x.mem) + 16).tdiv 10 =
        niceOf (cpuShare last x.cpu) (memShare x.mem) := by
    refine Int.tdiv_eq_ediv_of_nonneg ?_
    simp only [niceOf] at hnice
    omega
  have hdiv := divInt32_ok_iff.mpr ⟨by decide, .of_nonneg (htenth ▸ hnice.1)
    (htenth ▸ hnice.2.trans_lt (by omega)), htenth⟩
  rw [vnodeNiceGetNice, (vsysGetCpuRatio_ok_iff hlast hcpu hsince _ _).mpr ⟨hcfits, rfl⟩, ok_bind,
    (vsysGetMemRatio_ok_iff hmem _ _).mpr ⟨hmfits, rfl⟩, ok_bind]
  have hret : ¬ ((0 : Int) + 0 + 0 + 0 < 0) := by decide
  refine (if_neg hret).trans ?_
  exact bind_ok.mpr ⟨_, hsum, bind_ok.mpr ⟨_, hdiv, rfl⟩⟩

theorem vnodeNiceGetNice_ok_iff (hlast : last.Counters) (hcpu : x.cpu.Counters)
    (hsince : last.Since x.cpu) (hmem : x.mem.Counters) (r : CpuPrev × VnodeNice × Int) :
    vnodeNiceGetNice last.asPrev (.sampledAt a b v) (some x.cpu) (some x.mem) = .ok r ↔
      (CpuFits last x.cpu ∧ MemFits x.mem) ∧
        r = (x.cpu.asPrev, .sampledAt (cpuShare last x.cpu) (memShare x.mem)
          (niceOf (cpuShare last x.cpu) (memShare x.mem)),
          niceOf (cpuShare last x.cpu) (memShare x.mem)) := by
  constructor
  · intro hrun
    have hfits : CpuFits last x.cpu ∧ MemFits x.mem := by
      rw [vnodeNiceGetNice] at hrun
      obtain ⟨c, hc, hrun⟩ := bind_ok.mp hrun
      obtain ⟨m, hm, -⟩ := bind_ok.mp hrun
      exact ⟨((vsysGetCpuRatio_ok_iff hlast hcpu hsince _ _).mp hc).1,
        ((vsysGetMemRatio_ok_iff hmem _ _).mp hm).1⟩
    rw [vnodeNiceGetNice_fits hlast hcpu hsince hmem hfits.1 hfits.2] at hrun
    exact ⟨hfits, (Except.ok.inj hrun).symm⟩
  · rintro ⟨⟨hcfits, hmfits⟩, rfl⟩
    exact vnodeNiceGetNice_fits hlast hcpu hsince hmem hcfits hmfits

end Call

/-! ## All calls -/

theorem getNiceRun_ok_iff {last : CpuStat} (hlast : last.Counters) (xs : List Sample)
    (h : Admitted last xs) (a b v : Int) :
    (∃ calls, getNiceRun last.asPrev (.sampledAt a b v) xs = .ok calls) ↔ Fits last xs := by
  induction xs generalizing last a b v with
  | nil => exact ⟨fun _ => trivial, fun _ => ⟨[], rfl⟩⟩
  | cons x xs ih =>
    obtain ⟨⟨hcpu, hsince, hmem⟩, hrest⟩ := h
    have hstep := vnodeNiceGetNice_ok_iff (a := a) (b := b) (v := v) hlast hcpu hsince hmem
    constructor
    · rintro ⟨calls, hrun⟩
      obtain ⟨r, hr, hrun⟩ := bind_ok.mp hrun
      obtain ⟨hfits, rfl⟩ := (hstep r).mp hr
      obtain ⟨tail, htail, -⟩ := bind_ok.mp hrun
      exact ⟨hfits, (ih hcpu hrest _ _ _).mp ⟨tail, htail⟩⟩
    · rintro ⟨hfits, hall⟩
      obtain ⟨tail, htail⟩ := (ih hcpu hrest _ _ _).mpr hall
      exact ⟨_, bind_ok.mpr ⟨_, (hstep _).mpr ⟨hfits, rfl⟩, bind_ok.mpr ⟨tail, htail, rfl⟩⟩⟩

/-- A call whose ratios are in tenths and whose result is their weighing. -/
def NiceCall.Weighed (c : NiceCall) : Prop :=
  (0 ≤ c.cpuRatio ∧ c.cpuRatio ≤ 10) ∧ (0 ≤ c.memRatio ∧ c.memRatio ≤ 10) ∧
    c.nice = niceOf c.cpuRatio c.memRatio

theorem getNiceRun_weighed {last : CpuStat} (hlast : last.Counters) {xs : List Sample}
    (h : Admitted last xs) {a b v : Int} {calls : List NiceCall}
    (hrun : getNiceRun last.asPrev (.sampledAt a b v) xs = .ok calls) :
    calls.length = xs.length ∧ ∀ c ∈ calls, c.Weighed := by
  induction xs generalizing last a b v calls with
  | nil =>
    obtain rfl := Except.ok.inj hrun
    exact ⟨rfl, List.forall_mem_nil _⟩
  | cons x xs ih =>
    obtain ⟨⟨hcpu, hsince, hmem⟩, hrest⟩ := h
    obtain ⟨r, hr, hrun⟩ := bind_ok.mp hrun
    obtain ⟨⟨-, hmfits⟩, rfl⟩ := (vnodeNiceGetNice_ok_iff hlast hcpu hsince hmem r).mp hr
    obtain ⟨tail, htail, hcalls⟩ := bind_ok.mp hrun
    obtain rfl := Except.ok.inj hcalls
    obtain ⟨hlen, hall⟩ := ih hcpu hrest htail
    refine ⟨congrArg Nat.succ hlen, List.forall_mem_cons.mpr ⟨?_, hall⟩⟩
    exact ⟨cpuShare_range hsince, memShare_range hmem hmfits.1, rfl⟩

section Program

variable {xs : List Sample}

theorem niceCalls_ok_iff (h : Admitted .start xs) :
    (∃ calls, niceCalls xs = .ok calls) ↔ Fits .start xs :=
  getNiceRun_ok_iff counters_start xs h _ _ _

theorem niceCalls_weighed (h : Admitted .start xs) {calls : List NiceCall}
    (hrun : niceCalls xs = .ok calls) : calls.length = xs.length ∧ ∀ c ∈ calls, c.Weighed :=
  getNiceRun_weighed counters_start (a := CPU_RATIO) (b := MEM_RATIO) (v := 2) h hrun

/-- For any samples whose counters are values of `int` that never decrease: every call answers with
ratios in tenths and a value in range that grows with them, and none overflows, exactly when every
sample can be computed with after the one before it. -/
theorem niceCalls_graded_iff (h : Admitted .start xs) :
    (∃ calls, niceCalls xs = .ok calls ∧ calls.length = xs.length ∧
      ∀ c ∈ calls, c.InRange ∧ c.Graded) ↔ Fits .start xs := by
  rw [← niceCalls_ok_iff h]
  constructor
  · rintro ⟨calls, hrun, -⟩
    exact ⟨calls, hrun⟩
  · rintro ⟨calls, hrun⟩
    obtain ⟨hlen, hall⟩ := niceCalls_weighed h hrun
    refine ⟨calls, hrun, hlen, fun c hc => ?_⟩
    obtain ⟨hcpu, hmem, hnice⟩ := hall c hc
    constructor
    · refine ⟨hcpu, hmem, ?_⟩
      rw [hnice]
      exact niceOf_range hcpu hmem
    · intro ys others hys hothers d hd hcpuLe hmemLe
      obtain ⟨-, -, hnice'⟩ := (niceCalls_weighed hys hothers).2 d hd
      rw [hnice, hnice']
      exact niceOf_mono hcpuLe hmemLe

end Program

/-- A machine that goes from idle to busy and fills its memory. -/
def fillingSamples : List Sample :=
  [⟨⟨100, 0, 50, 1000⟩, ⟨8000000, 6000000⟩⟩, ⟨⟨700, 20, 350, 1200⟩, ⟨8000000, 500000⟩⟩]

theorem niceCalls_graded_filling :
    ∃ calls, niceCalls fillingSamples = .ok calls ∧ calls.length = fillingSamples.length ∧
      ∀ c ∈ calls, c.InRange ∧ c.Graded := by
  have hadmitted : Admitted .start fillingSamples := ⟨by decide, by decide, trivial⟩
  have hfits : Fits .start fillingSamples := ⟨by decide, by decide, trivial⟩
  exact (niceCalls_graded_iff hadmitted).mpr hfits

/-- A machine with 256 GiB of memory, 4 GiB of them free. -/
def largeSample : Sample := ⟨⟨100, 0, 50, 1000⟩, ⟨268435456, 4194304⟩⟩

theorem large_memory_overflows :
    Admitted .start [largeSample] ∧ niceCalls [largeSample] = .error .overflow :=
  ⟨⟨by decide, trivial⟩, rfl⟩

end Vdht.Node
