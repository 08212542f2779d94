import Vdht.NodeId.NodeInfo
import Vdht.NodeId.SrvcAddrs
import Vdht.Lib.Run

/-!
# Node infos in memory

A record is a block of the heap or lies in a fixed structure with room for all addresses. Adding
an address to a full record enlarges its block, which `realloc` may move; every pointer to the old
block is then meaningless. `vnodeInfo_copy` is done with its own pointer to the record before it
adds the first address. `vnodeInfo_merge` looks up every address of a fake source through the
pointer it took at the beginning.

The capacity of a record never decreases, so a record grows at most once from a capacity:
`moves` says for every capacity whether that `realloc` moves the block.
-/

namespace Vdht.NodeId

open Lib

/-- Where a record is: in a block of its own, or in a structure that is as large as it can get. -/
inductive Owner where
  | heap
  | fixed
deriving DecidableEq

/-- A node info with the place where it is. -/
structure VnodeRecord where
  owner : Owner
  /-- the block the record is in -/
  block : Nat
  info : VnodeInfo

variable (moves : Int → Bool)

/-- `realloc` takes blocks of the heap only; a block that moves gets a new number. -/
def VnodeRecord.realloc (r : VnodeRecord) : Res VnodeRecord :=
  match r.owner with
  | .fixed => .error .null
  | .heap => .ok (if moves r.info.capc then { r with block := r.block + 1 } else r)

/-- The reallocation in `vnodeInfo_add_addr`. -/
def VnodeRecord.grow (r : VnodeRecord) : Res VnodeRecord :=
  if r.info.naddrs < MAX_ADDRS ∧ r.info.naddrs ≥ r.info.capc then r.realloc moves else .ok r

/-- `vnodeInfo_add_addr` -/
def VnodeRecord.addAddr (r : VnodeRecord) (addr : SockaddrIn) (type : UInt32) :
    Res (VnodeRecord × Int) :=
  match r.grow moves with
  | .error e => .error e
  | .ok r =>
    match vnodeInfoAddAddr r.info addr type with
    | .error e => .error e
    | .ok (n, ret) => .ok ({ r with info := n }, ret)

/-- `vnodeInfo_has_addr` on the block that `dest` points to. -/
def VnodeRecord.hasAddr (r : VnodeRecord) (dest : Nat) (addr : SockaddrIn) : Res Bool :=
  if dest = r.block then vnodeInfoHasAddr r.info.toAddrBlock addr else .error .null

/-- The loop of `vnodeInfo_copy`; `false` when it returned `-1`. -/
def VnodeRecord.copyAddrs : List VsockaddrIn → Nat → VnodeRecord → Res (VnodeRecord × Bool)
  | _, 0, r => .ok (r, true)
  | [], _ + 1, _ => .error .bounds
  | a :: src, n + 1, r =>
    match r.addAddr moves a.addr a.type with
    | .error e => .error e
    | .ok (r, ret) => if ret < 0 then .ok (r, false) else copyAddrs src n r

/-- `vnodeInfo_copy` -/
def VnodeRecord.copy (r : VnodeRecord) (src : VnodeInfo) : Res (VnodeRecord × Int) :=
  match clearAddrs r.info.toAddrBlock with
  | .error e => .error e
  | .ok b =>
    match VnodeRecord.copyAddrs moves src.addrs src.naddrs.toNat
      { r with info := ⟨b, src.id, src.ver, src.weight⟩ } with
    | .error e => .error e
    | .ok (r, fit) => .ok (r, if fit then (if 0 < src.naddrs then 1 else 0) else -1)

/-- The loop of `vnodeInfo_merge` over the addresses of a fake source. -/
def VnodeRecord.mergeFake (dest : Nat) :
    List VsockaddrIn → Nat → VnodeRecord → Bool → Res (VnodeRecord × Int)
  | _, 0, r, updated => .ok (r, if updated then 1 else 0)
  | [], _ + 1, _, _ => .error .bounds
  | a :: src, n + 1, r, updated =>
    match r.hasAddr dest a.addr with
    | .error e => .error e
    | .ok true => mergeFake dest src n r updated
    | .ok false =>
      match r.addAddr moves a.addr a.type with
      | .error e => .error e
      | .ok (r, ret) => if ret < 0 then .ok (r, -1) else mergeFake dest src n r true

/-- `vnodeInfo_merge` -/
def VnodeRecord.merge (r : VnodeRecord) (src : VnodeInfo) : Res (VnodeRecord × Int) :=
  if vtokenEqual r.info.id src.id = false then .ok (r, 0)
  else if vnodeInfoIsFake src then
    VnodeRecord.mergeFake moves r.block src.addrs src.naddrs.toNat r false
  else if r.info.naddrs ≠ src.naddrs then
    match r.copy moves src with
    | .error e => .error e
    | .ok (r, ret) => .ok (r, if ret < 0 then -1 else 1)
  else
    match mergeSame r.info.addrs src.addrs src.naddrs.toNat with
    | .error e => .error e
    | .ok (addrs, updated) =>
      .ok ({ r with info := { r.info with ver := src.ver, weight := src.weight, addrs := addrs } },
        if updated then 1 else 0)

/-! ## The values of the records -/

variable {moves} {r r' : VnodeRecord} {src : List VsockaddrIn} {n : Nat} {ret : Int}

theorem VnodeRecord.grow_info (h : r.grow moves = .ok r') : r'.info = r.info := by
  unfold VnodeRecord.grow VnodeRecord.realloc at h
  split at h
  · split at h
    · cases h
    · cases h
      split <;> rfl
  · cases h
    rfl

theorem VnodeRecord.addAddr_info {addr : SockaddrIn} {type : UInt32}
    (h : r.addAddr moves addr type = .ok (r', ret)) :
    vnodeInfoAddAddr r.info addr type = .ok (r'.info, ret) := by
  unfold VnodeRecord.addAddr at h
  split at h
  · cases h
  · rename_i m hm
    rw [← VnodeRecord.grow_info hm]
    split at h
    · cases h
    · rename_i k ret' hadd
      cases h
      exact hadd

theorem vnodeInfoAddAddr_ok {m k : VnodeInfo} {addr : SockaddrIn} {type : UInt32}
    (h : vnodeInfoAddAddr m addr type = .ok (k, ret)) :
    addAddr nodeRule m.toAddrBlock addr type = .ok (k.toAddrBlock, ret) ∧ k.id = m.id ∧
      k.ver = m.ver ∧ k.weight = m.weight := by
  unfold vnodeInfoAddAddr at h
  split at h
  · cases h
  · rename_i b ret' hb
    cases h
    exact ⟨hb, rfl, rfl, rfl⟩

/-- `m` and `k` agree but for the addresses. -/
def SameHeader (m k : VnodeInfo) : Prop := m.id = k.id ∧ m.ver = k.ver ∧ m.weight = k.weight

theorem VnodeRecord.copyAddrs_info {fit : Bool}
    (h : VnodeRecord.copyAddrs moves src n r = .ok (r', fit)) :
    NodeId.copyAddrs nodeRule src n r.info.toAddrBlock = .ok (r'.info.toAddrBlock, fit) ∧
      SameHeader r'.info r.info := by
  induction src generalizing n r with
  | nil =>
    cases n with
    | zero =>
      cases h
      exact ⟨rfl, rfl, rfl, rfl⟩
    | succ n => cases h
  | cons a src ih =>
    cases n with
    | zero =>
      cases h
      exact ⟨rfl, rfl, rfl, rfl⟩
    | succ n =>
      unfold VnodeRecord.copyAddrs at h
      split at h
      · cases h
      · rename_i m ret hm
        obtain ⟨hadd, hid, hver, hweight⟩ := vnodeInfoAddAddr_ok (VnodeRecord.addAddr_info hm)
        unfold NodeId.copyAddrs
        rw [hadd]
        dsimp only
        split at h
        · rename_i hneg
          cases h
          exact ⟨if_pos hneg, hid, hver, hweight⟩
        · rename_i hpos
          rw [if_neg hpos]
          obtain ⟨hcopy, hid', hver', hweight'⟩ := ih h
          exact ⟨hcopy, hid'.trans hid, hver'.trans hver, hweight'.trans hweight⟩

theorem VnodeRecord.copy_info {s : VnodeInfo} (h : r.copy moves s = .ok (r', ret)) :
    vnodeInfoCopy r.info s = .ok (r'.info, ret) := by
  unfold VnodeRecord.copy at h
  unfold vnodeInfoCopy
  cases hb : clearAddrs r.info.toAddrBlock with
  | error e =>
    rw [hb] at h
    cases h
  | ok b =>
    rw [hb] at h
    dsimp only at h ⊢
    split at h
    · cases h
    · rename_i m fit hm
      cases h
      obtain ⟨hcopy, hid, hver, hweight⟩ := VnodeRecord.copyAddrs_info hm
      dsimp only at hcopy hid hver hweight
      rw [hcopy, ← hid, ← hver, ← hweight]

theorem VnodeRecord.mergeFake_info {dest : Nat} {updated : Bool}
    (h : VnodeRecord.mergeFake moves dest src n r updated = .ok (r', ret)) :
    NodeId.mergeFake src n r.info.toAddrBlock updated = .ok (r'.info.toAddrBlock, ret) ∧
      SameHeader r'.info r.info := by
  induction src generalizing n r updated with
  | nil =>
    cases n with
    | zero =>
      cases h
      exact ⟨rfl, rfl, rfl, rfl⟩
    | succ n => cases h
  | cons a src ih =>
    cases n with
    | zero =>
      cases h
      exact ⟨rfl, rfl, rfl, rfl⟩
    | succ n =>
      have hhas : ∀ {known}, r.hasAddr dest a.addr = .ok known →
          vnodeInfoHasAddr r.info.toAddrBlock a.addr = .ok known := by
        intro known hk
        unfold VnodeRecord.hasAddr at hk
        split at hk
        · exact hk
        · cases hk
      unfold VnodeRecord.mergeFake at h
      unfold NodeId.mergeFake
      split at h
      · cases h
      · rename_i hk
        rw [hhas hk]
        exact ih h
      · rename_i hk
        rw [hhas hk]
        dsimp only
        split at h
        · cases h
        · rename_i m ret' hm
          obtain ⟨hadd, hid, hver, hweight⟩ := vnodeInfoAddAddr_ok (VnodeRecord.addAddr_info hm)
          rw [hadd]
          dsimp only
          split at h
          · rename_i hneg
            cases h
            exact ⟨if_pos hneg, hid, hver, hweight⟩
          · rename_i hpos
            rw [if_neg hpos]
            obtain ⟨hmerge, hid', hver', hweight'⟩ := ih h
            exact ⟨hmerge, hid'.trans hid, hver'.trans hver, hweight'.trans hweight⟩

/-- When a merge returns, it leaves what `vnodeInfo_merge` leaves with a block that stays. -/
theorem VnodeRecord.merge_info {s : VnodeInfo} (h : r.merge moves s = .ok (r', ret)) :
    vnodeInfoMerge r.info s = .ok (r'.info, ret) := by
  unfold VnodeRecord.merge at h
  unfold vnodeInfoMerge
  split at h
  · rename_i hid
    cases h
    rw [if_pos hid]
  · rename_i hid
    rw [if_neg hid]
    split at h
    · rename_i hfake
      rw [if_pos hfake]
      obtain ⟨hmerge, hid, hver, hweight⟩ := VnodeRecord.mergeFake_info h
      rw [hmerge]
      dsimp only
      rw [← hid, ← hver, ← hweight]
    · rename_i hfake
      rw [if_neg hfake]
      split at h
      · rename_i hne
        rw [if_pos hne]
        split at h
        · cases h
        · rename_i m ret' hm
          cases h
          rw [VnodeRecord.copy_info hm]
      · rename_i heq
        rw [if_neg heq]
        cases hm : mergeSame r.info.addrs s.addrs s.naddrs.toNat with
        | error e =>
          rw [hm] at h
          cases h
        | ok res =>
          rw [hm] at h
          cases h
          rfl

/-! ## Blocks that stay -/

section Steady

variable (hmoves : ∀ c, moves c = false)
include hmoves

theorem VnodeRecord.addAddr_in_place (hheap : r.owner = .heap) (addr : SockaddrIn) (type : UInt32) :
    r.addAddr moves addr type =
      (vnodeInfoAddAddr r.info addr type).map fun d => ({ r with info := d.1 }, d.2) := by
  have hgrow : r.grow moves = .ok r := by
    unfold VnodeRecord.grow VnodeRecord.realloc
    rw [hheap]
    dsimp only
    rw [hmoves, if_neg Bool.false_ne_true, ite_self]
  unfold VnodeRecord.addAddr
  rw [hgrow]
  dsimp only
  cases vnodeInfoAddAddr r.info addr type with
  | error e => rfl
  | ok d => rfl

theorem VnodeRecord.copyAddrs_in_place (hheap : r.owner = .heap) (src : List VsockaddrIn) (n : Nat) :
    VnodeRecord.copyAddrs moves src n r =
      (NodeId.copyAddrs nodeRule src n r.info.toAddrBlock).map fun d =>
        ({ r with info := { r.info with toAddrBlock := d.1 } }, d.2) := by
  induction src generalizing n r with
  | nil =>
    cases n with
    | zero => rfl
    | succ n => rfl
  | cons a src ih =>
    cases n with
    | zero => rfl
    | succ n =>
      unfold VnodeRecord.copyAddrs NodeId.copyAddrs
      rw [VnodeRecord.addAddr_in_place hmoves hheap, vnodeInfoAddAddr]
      cases NodeId.addAddr nodeRule r.info.toAddrBlock a.addr a.type with
      | error e => rfl
      | ok d =>
        dsimp only [Except.map]
        by_cases hneg : d.2 < 0
        · rw [if_pos hneg, if_pos hneg]
        · rw [if_neg hneg, if_neg hneg]
          exact @ih { r with info := { r.info with toAddrBlock := d.1 } } hheap n

theorem VnodeRecord.mergeFake_in_place (hheap : r.owner = .heap) (src : List VsockaddrIn) (n : Nat)
    (updated : Bool) :
    VnodeRecord.mergeFake moves r.block src n r updated =
      (NodeId.mergeFake src n r.info.toAddrBlock updated).map fun d =>
        ({ r with info := { r.info with toAddrBlock := d.1 } }, d.2) := by
  induction src generalizing n r updated with
  | nil =>
    cases n with
    | zero => rfl
    | succ n => rfl
  | cons a src ih =>
    cases n with
    | zero => rfl
    | succ n =>
      unfold VnodeRecord.mergeFake NodeId.mergeFake VnodeRecord.hasAddr
      rw [if_pos rfl]
      cases vnodeInfoHasAddr r.info.toAddrBlock a.addr with
      | error e => rfl
      | ok known =>
        cases known with
        | true => exact ih hheap n updated
        | false =>
          dsimp only
          rw [VnodeRecord.addAddr_in_place hmoves hheap, vnodeInfoAddAddr]
          cases NodeId.addAddr nodeRule r.info.toAddrBlock a.addr a.type with
          | error e => rfl
          | ok d =>
            dsimp only [Except.map]
            by_cases hneg : d.2 < 0
            · rw [if_pos hneg, if_pos hneg]
            · rw [if_neg hneg, if_neg hneg]
              exact @ih { r with info := { r.info with toAddrBlock := d.1 } } hheap n true

/-- `vnodeInfo_copy` of a record whose block stays where it is. -/
theorem VnodeRecord.copy_in_place (hheap : r.owner = .heap) (s : VnodeInfo) :
    r.copy moves s = (vnodeInfoCopy r.info s).map fun d => ({ r with info := d.1 }, d.2) := by
  unfold VnodeRecord.copy vnodeInfoCopy
  cases clearAddrs r.info.toAddrBlock with
  | error e => rfl
  | ok b =>
    dsimp only
    rw [@VnodeRecord.copyAddrs_in_place moves { r with info := ⟨b, s.id, s.ver, s.weight⟩ } hmoves
      hheap]
    cases NodeId.copyAddrs nodeRule s.addrs s.naddrs.toNat b with
    | error e => rfl
    | ok d => rfl

/-- When `realloc` leaves every block of the heap in its place, `vnodeInfo_merge` does in memory what
the function on the values of the records does, faults included. -/
theorem VnodeRecord.merge_in_place (hheap : r.owner = .heap) (s : VnodeInfo) :
    r.merge moves s = (vnodeInfoMerge r.info s).map fun d => ({ r with info := d.1 }, d.2) := by
  unfold VnodeRecord.merge vnodeInfoMerge
  by_cases hid : vtokenEqual r.info.id s.id = false
  · rw [if_pos hid, if_pos hid]
    rfl
  · rw [if_neg hid, if_neg hid]
    by_cases hfake : vnodeInfoIsFake s = true
    · rw [if_pos hfake, if_pos hfake, VnodeRecord.mergeFake_in_place hmoves hheap]
      cases NodeId.mergeFake s.addrs s.naddrs.toNat r.info.toAddrBlock false with
      | error e => rfl
      | ok d => rfl
    · rw [if_neg hfake, if_neg hfake]
      by_cases hn : r.info.naddrs ≠ s.naddrs
      · rw [if_pos hn, if_pos hn, VnodeRecord.copy_in_place hmoves hheap]
        cases vnodeInfoCopy r.info s with
        | error e => rfl
        | ok d => rfl
      · rw [if_neg hn, if_neg hn]
        cases NodeId.mergeSame r.info.addrs s.addrs s.naddrs.toNat with
        | error e => rfl
        | ok d => rfl

end Steady

end Vdht.NodeId
