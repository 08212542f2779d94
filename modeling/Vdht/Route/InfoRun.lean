import Vdht.NodeId.MemoryRun
import Vdht.Route.Placement

/-!
# The node infos of the program in memory

A node info is allocated by `vpeer_alloc`, which clears its capacity, by `vnodeInfo_alloc`, or it
is the fixed form with room for twelve addresses. From there it is changed by adding addresses and
by copying and merging other node infos.
-/

namespace Vdht.NodeId

open Lib

/-- A node info to copy or to merge. -/
structure Source where
  info : VnodeInfo
  stored : info.naddrs ≤ info.addrs.length
  distinct : DistinctAddrs info.used

/-- The operations that change the record of a node: an address is added to it, it is overwritten,
or it is merged with another one. -/
inductive RecordOp where
  | addAddr (addr : SockaddrIn) (type : UInt32)
  | copy (src : Source)
  | merge (src : Source)

/-- An operation on a record, where `moves` says of which sizes `realloc` moves a block elsewhere.
-/
def recordStep (moves : Int → Bool) (r : VnodeRecord) : RecordOp → Res VnodeRecord
  | .addAddr addr type => (r.addAddr moves addr type).map Prod.fst
  | .copy src => (r.copy moves src.info).map Prod.fst
  | .merge src => (r.merge moves src.info).map Prod.fst

/-- Where a record comes from: from the heap for a peer, from the heap by itself, or from a local
that is relaxed to the full size. -/
inductive Allocator where
  | vpeerAlloc
  | vnodeInfoAlloc
  | relax

/-- The record as it is created. -/
def Allocator.record : Allocator → VnodeRecord
  | .vpeerAlloc => ⟨.heap, 0, Route.vpeerAllocNodei⟩
  | .vnodeInfoAlloc => ⟨.heap, 0, { Route.vpeerAllocNodei with capc := VNODEINFO_MIN_ADDRS }⟩
  | .relax => ⟨.fixed, 0, vnodeInfoRelax⟩

/-- Number, capacity and size of the block are in step, and no address is stored twice. -/
structure VnodeRecord.InStep (r : VnodeRecord) : Prop where
  naddrs_le : r.info.naddrs ≤ r.info.capc
  capc_le : r.info.capc ≤ MAX_ADDRS
  slots : r.info.capc ≤ r.info.addrs.length
  distinct : DistinctAddrs r.info.used

/-- The call returns and leaves the record in step; it neither touches an address outside the
block nor passes a fixed record to `realloc`. -/
def Returns (moves : Int → Bool) (r : VnodeRecord) (op : RecordOp) : Prop :=
  ∃ r', recordStep moves r op = .ok r' ∧ r'.InStep

/-- The pointer of a merge lasts: the source is not a fake one of this node, or no block moves
before the last of its addresses is looked up. -/
def PointerLasts (moves : Int → Bool) (r : VnodeRecord) : RecordOp → Prop
  | .merge src =>
    vtokenEqual r.info.id src.info.id = true → vnodeInfoIsFake src.info = true →
      r.Stays moves src.info.used.dropLast
  | _ => True

variable {moves : Int → Bool} {r : VnodeRecord}

theorem VnodeRecord.Kept.inStep (h : r.Kept) : r.InStep := by
  have hs := h.sound.slots
  exact ⟨h.sound.naddrs_le, h.sound.capc_le, by omega, h.distinct⟩

theorem Allocator.kept (a : Allocator) : a.record.Kept := by
  cases a with
  | vpeerAlloc =>
    refine ⟨⟨Route.fitting_vpeerAllocNodei, Int.le_refl _, Int.le_refl _⟩, List.Pairwise.nil, ?_⟩
    rintro ⟨⟩
  | vnodeInfoAlloc =>
    refine ⟨⟨⟨by decide, by decide, by decide, by decide⟩, by decide, by decide⟩,
      List.Pairwise.nil, ?_⟩
    rintro ⟨⟩
  | relax =>
    exact ⟨⟨fitting_relax, by decide, by decide⟩, List.Pairwise.nil, fun _ => rfl⟩

/-- Two lists of the same number of addresses are merged place by place. -/
theorem VnodeRecord.Kept.mergeSame (h : r.Kept) {src : Source}
    (hn : r.info.naddrs = src.info.naddrs) (ver : Token) (weight : Int32) :
    ∃ addrs updated, NodeId.mergeSame r.info.addrs src.info.addrs src.info.naddrs.toNat =
        .ok (addrs, updated) ∧
      VnodeRecord.Kept
        { r with info := { r.info with ver := ver, weight := weight, addrs := addrs } } := by
  have hs := h.sound.slots
  have hle := h.sound.naddrs_le
  have hst := src.stored
  obtain ⟨addrs, updated, hm⟩ := @mergeSame_total r.info.addrs src.info.addrs
    src.info.naddrs.toNat (by omega) (by omega)
  refine ⟨addrs, updated, hm, ⟨⟨h.sound.capc_nonneg, h.sound.capc_le, h.sound.capc_dvd, ?_⟩,
    h.sound.naddrs_nonneg, hle⟩, ?_, h.fixed⟩
  · show (addrs.length : Int) = _
    rw [mergeSame_length hm]
    exact hs
  · show DistinctAddrs (addrs.take r.info.naddrs.toNat)
    rw [distinctAddrs_iff, hn, mergeSame_keys hm, ← distinctAddrs_iff]
    exact src.distinct

theorem pointerLasts_merge {src : Source} :
    PointerLasts moves r (.merge src) ↔
      (vtokenEqual r.info.id src.info.id = true → vnodeInfoIsFake src.info = true →
        r.Stays moves src.info.used.dropLast) := Iff.rfl

theorem VnodeRecord.Kept.merge (h : r.Kept) (src : Source) :
    (PointerLasts moves r (.merge src) →
      ∃ r' ret, r.merge moves src.info = .ok (r', ret) ∧ r'.Kept) ∧
    (¬ PointerLasts moves r (.merge src) → r.merge moves src.info = .error .null) := by
  have hst := src.stored
  rw [pointerLasts_merge]
  unfold VnodeRecord.merge
  by_cases hid : vtokenEqual r.info.id src.info.id = false
  · rw [if_pos hid, hid]
    exact ⟨fun _ => ⟨r, 0, rfl, h⟩, fun hnot => absurd (fun hf => by cases hf) hnot⟩
  · rw [if_neg hid]
    rw [Bool.not_eq_false] at hid
    by_cases hfake : vnodeInfoIsFake src.info = true
    · rw [if_pos hfake, forall_prop_of_true hid, forall_prop_of_true hfake]
      exact h.mergeFake false (by omega) src.distinct
    · rw [if_neg hfake]
      refine ⟨fun _ => ?_, fun hnot => absurd (fun _ hf => absurd hf hfake) hnot⟩
      by_cases hn : r.info.naddrs = src.info.naddrs
      · obtain ⟨addrs, updated, hm, hk⟩ := h.mergeSame hn src.info.ver src.info.weight
        rw [if_neg (not_not.mpr hn), hm]
        exact ⟨_, _, rfl, hk⟩
      · obtain ⟨r', ret, hcopy, hk⟩ := @Kept.copy moves r src.info h hst
        rw [if_pos hn, hcopy]
        exact ⟨r', _, rfl, hk⟩

/-- Whatever `realloc` does with the block that the record is in: merging into the record does in
memory what `vnodeInfoMerge` says, or it reads the old block, and the latter exactly if the pointer
of the merge does not last. -/
def MergesInMemory (n : VnodeInfo) : Prop :=
  ∀ (moves : Int → Bool) (block : Nat) (src : Source),
    (PointerLasts moves ⟨.heap, block, n⟩ (.merge src) ∧
      ∃ r ret, VnodeRecord.merge moves ⟨.heap, block, n⟩ src.info = .ok (r, ret) ∧
        vnodeInfoMerge n src.info = .ok (r.info, ret)) ∨
    (¬ PointerLasts moves ⟨.heap, block, n⟩ (.merge src) ∧
      VnodeRecord.merge moves ⟨.heap, block, n⟩ src.info = .error .null)

theorem mergesInMemory {n : VnodeInfo} (hn : n.Sound) (hd : DistinctAddrs n.used) :
    MergesInMemory n := by
  intro moves block src
  have hkept : VnodeRecord.Kept ⟨.heap, block, n⟩ := ⟨hn, hd, fun h => by cases h⟩
  by_cases hlasts : PointerLasts moves ⟨.heap, block, n⟩ (.merge src)
  · obtain ⟨r, ret, hmerge, -⟩ := (hkept.merge src).1 hlasts
    exact Or.inl ⟨hlasts, r, ret, hmerge, VnodeRecord.merge_info hmerge⟩
  · exact Or.inr ⟨hlasts, (hkept.merge src).2 hlasts⟩

/-- Where `realloc` extends the block that the record is in, merging into the record does in memory
what `vnodeInfoMerge` says, faults included. -/
def MergesInPlace (n : VnodeInfo) : Prop :=
  ∀ moves : Int → Bool, (∀ c, moves c = false) → ∀ block src,
    VnodeRecord.merge moves ⟨.heap, block, n⟩ src =
      (vnodeInfoMerge n src).map fun d => (⟨.heap, block, d.1⟩, d.2)

theorem mergesInPlace (n : VnodeInfo) : MergesInPlace n := fun _ hmoves _ src =>
  VnodeRecord.merge_in_place hmoves rfl src

theorem map_fst_ok {x : Res (VnodeRecord × Int)}
    (h : ∃ r' ret, x = .ok (r', ret) ∧ r'.Kept) :
    ∃ r', x.map Prod.fst = .ok r' ∧ r'.Kept := by
  obtain ⟨r', ret, rfl, hk⟩ := h
  exact ⟨r', rfl, hk⟩

theorem recordStep_kept (h : r.Kept) {op : RecordOp} (hop : PointerLasts moves r op) :
    ∃ r', recordStep moves r op = .ok r' ∧ r'.Kept := by
  cases op with
  | addAddr addr type =>
    apply map_fst_ok
    rcases Int.lt_or_le r.info.naddrs MAX_ADDRS with hlt | hge
    · obtain ⟨r', ret, hadd, -, hk, -, -, -⟩ := @VnodeRecord.Kept.addAddr moves r h hlt addr type
      exact ⟨r', ret, hadd, hk⟩
    · exact ⟨r, -1, VnodeRecord.addAddr_full hge addr type, h⟩
  | copy src => exact map_fst_ok (h.copy src.stored)
  | merge src => exact map_fst_ok ((h.merge src).1 hop)

theorem recordStep_moved (h : r.Kept) {op : RecordOp} (hop : ¬ PointerLasts moves r op) :
    recordStep moves r op = .error .null := by
  cases op with
  | addAddr addr type => exact absurd trivial hop
  | copy src => exact absurd trivial hop
  | merge src =>
    show (r.merge moves src.info).map Prod.fst = _
    rw [(h.merge src).2 hop]
    rfl

theorem returns_iff (h : r.Kept) (op : RecordOp) :
    Returns moves r op ↔ PointerLasts moves r op := by
  constructor
  · rintro ⟨r', hr', -⟩
    by_contra hop
    rw [recordStep_moved h hop] at hr'
    cases hr'
  · intro hop
    obtain ⟨r', hr', hk⟩ := recordStep_kept h hop
    exact ⟨r', hr', hk.inStep⟩

/-- For records from every source and every behaviour of `realloc`: the fresh record is in step, and
every call of a run returns and leaves it so, exactly when in every merge of the run the pointer
taken at its start still points at the record when it is looked at again. -/
theorem record_inStep_iff (moves : Int → Bool) (a : Allocator) (ops : List RecordOp) :
    a.record.InStep ∧ Along (recordStep moves) (Returns moves) a.record ops ↔
      Along (recordStep moves) (PointerLasts moves) a.record ops := by
  rw [and_iff_right a.kept.inStep]
  refine along_iff (fun r op hr => returns_iff hr op) (fun r op r' hr hop hstep => ?_) a.kept
  obtain ⟨m, hm, hk⟩ := recordStep_kept hr hop
  rw [hm] at hstep
  cases hstep
  exact hk

/-! ## A block that moves -/

/-- An address with a given port, for concrete runs. -/
def addrOf (port : UInt16) : SockaddrIn := ⟨2, port, 0, Block.zero 8⟩

/-- A fake node info of the node with the zero identifier. -/
def twoAddrs : Source where
  info :=
    { naddrs := 2
      capc := 4
      addrs := [⟨addrOf 5, 0⟩, ⟨addrOf 6, 0⟩, zeroAddr, zeroAddr]
      id := Block.zero VTOKEN_LEN
      ver := vnodeVerUnknown
      weight := 0 }
  stored := by decide
  distinct := List.pairwise_pair.mpr rfl

/-- Four addresses fill the record; the first address of the source moves it, and the second one
is looked up in the old block. -/
theorem merge_reads_moved_block :
    ¬ Along (recordStep fun _ => true) (Returns fun _ => true) Allocator.vnodeInfoAlloc.record
      [.addAddr (addrOf 1) 0, .addAddr (addrOf 2) 0, .addAddr (addrOf 3) 0,
        .addAddr (addrOf 4) 0, .merge twoAddrs] := by
  intro h
  obtain ⟨s, hs, -⟩ := along_total (I := fun _ => True)
    (fun r op _ hr => hr.imp fun _ hr' => ⟨hr'.1, trivial⟩) trivial h
  have hfault : run (recordStep fun _ => true) Allocator.vnodeInfoAlloc.record
      [.addAddr (addrOf 1) 0, .addAddr (addrOf 2) 0, .addAddr (addrOf 3) 0,
        .addAddr (addrOf 4) 0, .merge twoAddrs] = .error .null := rfl
  rw [hfault] at hs
  cases hs

end Vdht.NodeId
