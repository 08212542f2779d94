import Vdht.NodeId.Memory
import Mathlib.Algebra.Order.Ring.Int

/-!
# Runs of a node info in memory

The number of addresses, the capacity and the size of the block stay in step, and no address is
stored twice. The one thing that can go wrong is the pointer `vnodeInfo_merge` keeps: the merge
returns exactly when no block moves before the last address of a fake source is looked up.
-/

namespace Vdht.NodeId

open Lib

variable {moves : Int → Bool}

/-! ## Distinct addresses -/

theorem mergeSame_keys {dest src rest : List VsockaddrIn} {n : Nat} {updated : Bool}
    (h : mergeSame dest src n = .ok (rest, updated)) :
    (rest.take n).map addrKey = (src.take n).map addrKey := by
  induction n generalizing dest src rest updated with
  | zero => rfl
  | succ n ih =>
    cases dest with
    | nil =>
      unfold mergeSame at h
      cases h
    | cons d dest =>
      cases src with
      | nil =>
        unfold mergeSame at h
        cases h
      | cons s src =>
        unfold mergeSame at h
        split at h
        · cases h
        · rename_i rest' updated' hrest
          have htail := ih hrest
          split at h
          · rename_i hsame
            cases h
            have hkey : addrKey d = addrKey s := vsockaddrEqual_iff_key.mp hsame
            simp only [List.take_succ_cons, List.map_cons, htail, hkey]
          · cases h
            simp only [List.take_succ_cons, List.map_cons, htail]
            rfl

/-! ## The invariant -/

/-- What holds of a record between two calls. -/
structure VnodeRecord.Kept (r : VnodeRecord) : Prop where
  sound : r.info.Sound
  distinct : DistinctAddrs r.info.used
  fixed : r.owner = .fixed → r.info.capc = MAX_ADDRS

/-- The block after the reallocation. -/
def VnodeRecord.nextBlock (moves : Int → Bool) (r : VnodeRecord) : Nat :=
  if r.info.naddrs = r.info.capc ∧ moves r.info.capc then r.block + 1 else r.block

theorem addAddr_capc {rule : AddrRule} {b b' : AddrBlock} {addr : SockaddrIn} {type : UInt32}
    {ret : Int} (hlt : b.naddrs < MAX_ADDRS) (h : addAddr rule b addr type = .ok (b', ret)) :
    b'.capc = (growBlock rule b).capc := by
  unfold addAddr at h
  split at h
  · cases h
  · rw [if_neg (by omega)] at h
    split at h
    · cases h
    · cases h
      rfl
    · split at h
      · cases h
      · split at h
        · cases h
        · cases h
          rfl

theorem VnodeRecord.Kept.grow {r : VnodeRecord} (h : r.Kept) (hlt : r.info.naddrs < MAX_ADDRS) :
    r.grow moves = .ok { r with block := r.nextBlock moves } := by
  have hle := h.sound.naddrs_le
  unfold VnodeRecord.grow VnodeRecord.nextBlock
  by_cases hfull : r.info.naddrs ≥ r.info.capc
  · have hheap : r.owner = .heap := by
      cases ho : r.owner with
      | heap => rfl
      | fixed =>
        have := h.fixed ho
        omega
    have heq : r.info.naddrs = r.info.capc := by omega
    obtain ⟨owner, block, info⟩ := r
    cases hheap
    rw [if_pos ⟨hlt, hfull⟩]
    show Except.ok (if moves info.capc then _ else _) = _
    by_cases hm : moves info.capc = true
    · rw [if_pos hm, if_pos ⟨heq, hm⟩]
    · rw [if_neg hm, if_neg (fun hg => hm hg.2)]
  · rw [if_neg (fun hg => hfull hg.2), if_neg (fun hg => hfull (by omega))]

/-- An address is added to a record with less than twelve. -/
theorem VnodeRecord.Kept.addAddr {r : VnodeRecord} (h : r.Kept)
    (hlt : r.info.naddrs < MAX_ADDRS) (addr : SockaddrIn) (type : UInt32) :
    ∃ r' ret, r.addAddr moves addr type = .ok (r', ret) ∧ 0 ≤ ret ∧ r'.Kept ∧
      r'.block = r.nextBlock moves ∧
      r'.info.capc = (growBlock nodeRule r.info.toAddrBlock).capc ∧
      r'.info.used = putAddr nodeRule r.info.used addr type := by
  obtain ⟨b, ret, hadd, hret, hsound, hused, -, -⟩ :=
    @addAddr_ok nodeRule r.info.toAddrBlock h.sound hlt addr type rfl
  have hcapc := addAddr_capc hlt hadd
  refine ⟨{ r with block := r.nextBlock moves, info := { r.info with toAddrBlock := b } }, ret,
    ?_, hret, ⟨hsound, ?_, fun ho => ?_⟩, rfl, hcapc, hused⟩
  · unfold VnodeRecord.addAddr vnodeInfoAddAddr
    rw [h.grow hlt]
    dsimp only
    rw [hadd]
  · show DistinctAddrs b.used
    rw [hused]
    exact distinctAddrs_putAddr h.distinct addr type
  · have hmax := h.fixed ho
    show b.capc = MAX_ADDRS
    rw [hcapc, growBlock, if_neg (by omega)]
    exact hmax

theorem VnodeRecord.addAddr_full {r : VnodeRecord} (h : MAX_ADDRS ≤ r.info.naddrs)
    (addr : SockaddrIn) (type : UInt32) : r.addAddr moves addr type = .ok (r, -1) := by
  unfold VnodeRecord.addAddr VnodeRecord.grow vnodeInfoAddAddr
  rw [if_neg (fun hg => by omega)]
  dsimp only
  rw [@NodeId.addAddr_full nodeRule r.info.toAddrBlock h addr type rfl]

theorem VnodeRecord.Kept.copyAddrs {r : VnodeRecord} {src : List VsockaddrIn} {n : Nat}
    (h : r.Kept) (hn : n ≤ src.length) :
    ∃ r' fit, VnodeRecord.copyAddrs moves src n r = .ok (r', fit) ∧ r'.Kept := by
  induction src generalizing n r with
  | nil =>
    cases n with
    | zero => exact ⟨r, true, rfl, h⟩
    | succ n => simp at hn
  | cons a src ih =>
    cases n with
    | zero => exact ⟨r, true, rfl, h⟩
    | succ n =>
      unfold VnodeRecord.copyAddrs
      rcases Int.lt_or_le r.info.naddrs MAX_ADDRS with hlt | hge
      · obtain ⟨m, ret, hadd, hret, hm, -, -, -⟩ := @Kept.addAddr moves r h hlt a.addr a.type
        rw [hadd]
        dsimp only
        rw [if_neg (by omega)]
        exact ih hm (by simpa using hn)
      · rw [VnodeRecord.addAddr_full hge]
        exact ⟨r, false, if_pos (by omega), h⟩

/-- A copy does not depend on what the record held. -/
theorem VnodeRecord.copy_kept {r : VnodeRecord} {src : VnodeInfo} (hf : r.info.Fitting)
    (hfixed : r.owner = .fixed → r.info.capc = MAX_ADDRS)
    (hstored : src.naddrs ≤ src.addrs.length) :
    ∃ r' ret, r.copy moves src = .ok (r', ret) ∧ r'.Kept := by
  obtain ⟨c, hc, hcs, hc0⟩ := clearAddrs_ok hf
  have hcapc : c.capc = r.info.capc := by
    unfold clearAddrs at hc
    split at hc
    · cases hc
    · cases hc
      rfl
  have hk : VnodeRecord.Kept { r with info := ⟨c, src.id, src.ver, src.weight⟩ } := by
    refine ⟨hcs, ?_, fun ho => hcapc.trans (hfixed ho)⟩
    show DistinctAddrs c.used
    rw [c.used_eq_nil hc0]
    exact List.Pairwise.nil
  obtain ⟨r', fit, hcopy, hr'⟩ :=
    @VnodeRecord.Kept.copyAddrs moves _ src.addrs src.naddrs.toNat hk (by omega)
  unfold VnodeRecord.copy
  rw [hc]
  dsimp only
  rw [hcopy]
  exact ⟨r', _, rfl, hr'⟩

theorem VnodeRecord.Kept.copy {r : VnodeRecord} {src : VnodeInfo} (h : r.Kept)
    (hstored : src.naddrs ≤ src.addrs.length) :
    ∃ r' ret, r.copy moves src = .ok (r', ret) ∧ r'.Kept :=
  VnodeRecord.copy_kept h.sound.toFitting h.fixed hstored

/-! ## The pointer of a merge -/

/-- The address is in the list, with any type. -/
def knows (l : List VsockaddrIn) (a : VsockaddrIn) : Bool :=
  l.any fun x => vsockaddrEqual x.addr a.addr

/-- No block moves while the unknown addresses among `l` are added. -/
def VnodeRecord.Stays (moves : Int → Bool) (r : VnodeRecord) (l : List VsockaddrIn) : Prop :=
  ∀ c : Int, r.info.capc ≤ c → c < MAX_ADDRS → (VNODEINFO_MIN_ADDRS : Int) ∣ c →
    c < r.info.naddrs + l.countP (fun a => !knows r.info.used a) → moves c = false

theorem knows_iff {l : List VsockaddrIn} {a : VsockaddrIn} :
    knows l a = true ↔ HasAddr l a.addr := List.any_eq_true

theorem VnodeRecord.Kept.hasAddr {r : VnodeRecord} (h : r.Kept) (a : VsockaddrIn) :
    r.hasAddr r.block a.addr = .ok (knows r.info.used a) := by
  rw [VnodeRecord.hasAddr, if_pos rfl, vnodeInfoHasAddr_eq h.sound]
  rfl

theorem VnodeRecord.hasAddr_moved {r : VnodeRecord} {dest : Nat} (h : dest ≠ r.block)
    (addr : SockaddrIn) : r.hasAddr dest addr = .error .null := if_neg h

theorem VnodeRecord.Kept.stays_nil {r : VnodeRecord} (h : r.Kept) : r.Stays moves [] := by
  intro c hc _ _ hlt
  have hle := h.sound.naddrs_le
  simp only [List.countP_nil] at hlt
  omega

theorem VnodeRecord.Kept.stays_full {r : VnodeRecord} (h : r.Kept)
    (hge : MAX_ADDRS ≤ r.info.naddrs) (l : List VsockaddrIn) : r.Stays moves l := by
  intro c hc hmax
  have hle := h.sound.naddrs_le
  omega

theorem VnodeRecord.stays_cons_known {r : VnodeRecord} {a : VsockaddrIn} {l : List VsockaddrIn}
    (ha : knows r.info.used a = true) : r.Stays moves (a :: l) ↔ r.Stays moves l := by
  unfold VnodeRecord.Stays
  rw [List.countP_cons_of_neg (by simp [ha])]

theorem growBlock_capc (b : AddrBlock) :
    (growBlock nodeRule b).capc = if b.naddrs ≥ b.capc then b.capc + 4 else b.capc := by
  unfold growBlock
  split <;> rfl

/-- An unknown address is one more address of the record. -/
theorem naddrs_putAddr {b c : AddrBlock} {a : VsockaddrIn} (hb : b.Sound nodeRule)
    (hc : c.Sound nodeRule) (ha : knows b.used a = false)
    (hused : c.used = putAddr nodeRule b.used a.addr a.type) : c.naddrs = b.naddrs + 1 := by
  have hnot : ¬ HasAddr b.used a.addr := by
    rw [← knows_iff, ha]
    exact Bool.false_ne_true
  have hlen := hb.length_used
  have hlen' := hc.length_used
  rw [hused, putAddr, findAddr_eq_none.mpr hnot, (insertAddr_perm _ _ _).length_eq,
    List.length_cons] at hlen'
  omega

/-- The other addresses are unknown as before. -/
theorem countP_unknown_putAddr {used l : List VsockaddrIn} {a : VsockaddrIn}
    (hl : ∀ b ∈ l, vsockaddrEqual a.addr b.addr = false) :
    l.countP (fun b => !knows (putAddr nodeRule used a.addr a.type) b) =
      l.countP (fun b => !knows used b) := by
  apply List.countP_congr
  intro b hb
  have hsame : knows (putAddr nodeRule used a.addr a.type) b = knows used b := by
    rw [Bool.eq_iff_iff, knows_iff, knows_iff, hasAddr_putAddr, hl b hb]
    exact or_iff_left Bool.false_ne_true
  rw [hsame]

/-- A new address is stored without a move, and neither do the later ones move the block. -/
theorem VnodeRecord.Kept.stays_cons_new {r r' : VnodeRecord} {a : VsockaddrIn}
    {l : List VsockaddrIn} (h : r.Kept) (hlt : r.info.naddrs < MAX_ADDRS)
    (ha : knows r.info.used a = false)
    (hl : ∀ b ∈ l, vsockaddrEqual a.addr b.addr = false) (h' : r'.Kept)
    (hcapc : r'.info.capc = (growBlock nodeRule r.info.toAddrBlock).capc)
    (hused : r'.info.used = putAddr nodeRule r.info.used a.addr a.type) :
    r.Stays moves (a :: l) ↔ r.nextBlock moves = r.block ∧ r'.Stays moves l := by
  have hle := h.sound.naddrs_le
  have hdvd : (4 : Int) ∣ r.info.capc := h.sound.capc_dvd
  have hnaddrs := naddrs_putAddr h.sound h'.sound ha hused
  have hcount : l.countP (fun b => !knows r'.info.used b) =
      l.countP (fun b => !knows r.info.used b) := by
    rw [hused]
    exact countP_unknown_putAddr hl
  have hcons := @List.countP_cons_of_pos _ (fun b => !knows r.info.used b) a l (by simp [ha])
  rw [growBlock_capc] at hcapc
  unfold VnodeRecord.Stays VnodeRecord.nextBlock
  rw [hcons, hcount, hnaddrs, hcapc]
  constructor
  · intro hstays
    constructor
    · apply if_neg
      rintro ⟨hfull, hmoves⟩
      rw [hstays r.info.capc (Int.le_refl _) (by omega) hdvd (by omega)] at hmoves
      cases hmoves
    · intro c hc hmax hc4 hbelow
      refine hstays c ?_ hmax hc4 (by omega)
      split at hc <;> omega
  · rintro ⟨hblock, hstays⟩ c hc hmax hc4 hbelow
    have hc4' : (4 : Int) ∣ c := hc4
    by_cases hfull : r.info.naddrs = r.info.capc
    · rw [if_pos (by omega)] at hstays
      by_cases heq : c = r.info.capc
      · rw [heq]
        by_contra hmoves
        rw [if_pos ⟨hfull, by simpa using hmoves⟩] at hblock
        omega
      · exact hstays c (by omega) hmax hc4 (by omega)
    · rw [if_neg (by omega)] at hstays
      exact hstays c hc hmax hc4 (by omega)

theorem VnodeRecord.Kept.stays_dropLast_known {r : VnodeRecord} (h : r.Kept) {a : VsockaddrIn}
    {l : List VsockaddrIn} (ha : knows r.info.used a = true) :
    r.Stays moves (a :: l).dropLast ↔ r.Stays moves l.dropLast := by
  cases l with
  | nil => exact iff_of_true h.stays_nil h.stays_nil
  | cons b l => exact stays_cons_known ha

/-- Nothing is looked up any more in a block that has moved. -/
theorem VnodeRecord.mergeFake_moved {src : List VsockaddrIn} {n dest : Nat} {r : VnodeRecord}
    (h : dest ≠ r.block) (updated : Bool) (hn : n ≤ src.length) (hpos : src.take n ≠ []) :
    VnodeRecord.mergeFake moves dest src n r updated = .error .null := by
  cases n with
  | zero => exact absurd rfl hpos
  | succ n =>
    cases src with
    | nil => simp at hn
    | cons b src =>
      unfold VnodeRecord.mergeFake
      rw [VnodeRecord.hasAddr_moved h]

theorem VnodeRecord.mergeFake_end {src : List VsockaddrIn} {n dest : Nat} {r : VnodeRecord}
    (updated : Bool) (hn : n ≤ src.length) (hnil : src.take n = []) :
    VnodeRecord.mergeFake moves dest src n r updated = .ok (r, if updated then 1 else 0) := by
  have hzero : n = 0 := by
    have hlen := congrArg List.length hnil
    simp only [List.length_take, List.length_nil] at hlen
    omega
  rw [hzero, VnodeRecord.mergeFake]

/-- The loop returns as long as the block stays where `dest` points, until the last address is
looked up. -/
theorem VnodeRecord.Kept.mergeFake {src : List VsockaddrIn} {n : Nat} {r : VnodeRecord}
    (h : r.Kept) (updated : Bool) (hn : n ≤ src.length) (hd : DistinctAddrs (src.take n)) :
    (r.Stays moves (src.take n).dropLast →
      ∃ r' ret, VnodeRecord.mergeFake moves r.block src n r updated = .ok (r', ret) ∧ r'.Kept) ∧
    (¬ r.Stays moves (src.take n).dropLast →
      VnodeRecord.mergeFake moves r.block src n r updated = .error .null) := by
  induction src generalizing n r updated with
  | nil =>
    cases n with
    | zero => exact ⟨fun _ => ⟨r, _, rfl, h⟩, fun hnot => absurd h.stays_nil hnot⟩
    | succ n => simp at hn
  | cons a src ih =>
    cases n with
    | zero => exact ⟨fun _ => ⟨r, _, rfl, h⟩, fun hnot => absurd h.stays_nil hnot⟩
    | succ n =>
      have hn' : n ≤ src.length := by simpa using hn
      rw [List.take_succ_cons] at hd ⊢
      obtain ⟨hnew, hd'⟩ := List.pairwise_cons.mp hd
      unfold VnodeRecord.mergeFake
      rw [h.hasAddr]
      cases ha : knows r.info.used a with
      | true =>
        dsimp only
        rw [h.stays_dropLast_known ha]
        exact ih h updated hn' hd'
      | false =>
        dsimp only
        rcases Int.lt_or_le r.info.naddrs MAX_ADDRS with hlt | hge
        · obtain ⟨m, ret, hadd, hret, hm, hblock, hcapc, hused⟩ :=
            @Kept.addAddr moves r h hlt a.addr a.type
          rw [hadd]
          dsimp only
          rw [if_neg (by omega)]
          by_cases hnil : src.take n = []
          · rw [VnodeRecord.mergeFake_end true hn' hnil, hnil]
            exact ⟨fun _ => ⟨m, _, rfl, hm⟩, fun hnot => absurd h.stays_nil hnot⟩
          · rw [List.dropLast_cons_of_ne_nil hnil]
            have hlast : ∀ b ∈ (src.take n).dropLast, vsockaddrEqual a.addr b.addr = false :=
              fun b hb => hnew b (List.mem_of_mem_dropLast hb)
            rw [h.stays_cons_new hlt ha hlast hm hcapc hused]
            by_cases hstay : r.nextBlock moves = r.block
            · rw [← hstay, ← hblock, and_iff_right rfl]
              exact ih hm true hn' hd'
            · have hmoved : r.block ≠ m.block := fun heq => hstay (by rw [← hblock, heq])
              exact ⟨fun hs => absurd hs.1 hstay,
                fun _ => VnodeRecord.mergeFake_moved hmoved true hn' hnil⟩
        · rw [VnodeRecord.addAddr_full hge]
          exact ⟨fun _ => ⟨r, -1, if_pos (by omega), h⟩,
            fun hnot => absurd (h.stays_full hge _) hnot⟩

end Vdht.NodeId
