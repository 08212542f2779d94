import Vdht.NodeId.MemoryRun
import Vdht.Lib.StableSort

/-!
# The order of the addresses of a node

A new address goes behind the last address that is not of a greater base type, so addresses that
are added one by one end up in the stable sort by base type. `vnodeInfo_copy` fills a cleared record
in this way; nothing of what the record held before is left.
-/

namespace Vdht.NodeId

open Lib

/-- `VSOCKADDR_TYPE(addrs[i].type)` -/
def baseType (a : VsockaddrIn) : UInt32 := vsockaddrType a.type

theorem sortedAddrs_iff {l : List VsockaddrIn} :
    SortedAddrs nodeRule.key l ↔ SortedBy baseType l := Iff.rfl

/-! ## Insertion -/

section Insertion

variable {new : VsockaddrIn} {l m : List VsockaddrIn}

/-- The insertion leaves addresses of one base type in their order, with the new one at the end. -/
theorem withKey_insertAddr (k : UInt32) :
    withKey baseType k (insertAddr nodeRule.key new l) = withKey baseType k (l ++ [new]) := by
  induction l using List.reverseRecOn with
  | nil => rfl
  | append_singleton l a ih =>
    rw [insertAddr_concat]
    split
    · rename_i hgt
      have hlt : baseType new < baseType a := hgt
      rw [withKey_append, ih, withKey_append, withKey_append, withKey_append, List.append_assoc,
        List.append_assoc]
      congr 1
      by_cases hk : baseType new = k
      · have hnil : withKey baseType k [a] = [] := by
          apply withKey_eq_nil
          intro b hb
          rw [List.mem_singleton.mp hb, ← hk]
          exact (UInt32.ne_of_lt hlt).symm
        rw [hnil, List.nil_append, List.append_nil]
      · have hnil : withKey baseType k [new] = [] := withKey_cons_of_ne hk
        rw [hnil, List.nil_append, List.append_nil]
    · rfl

theorem sortedBy_concat {a : VsockaddrIn} :
    SortedBy baseType (l ++ [a]) ↔ SortedBy baseType l ∧ ∀ b ∈ l, baseType b ≤ baseType a :=
  sortedAddrs_concat

theorem sortedBy_insertAddr (hl : SortedBy baseType l) :
    SortedBy baseType (insertAddr nodeRule.key new l) :=
  sortedAddrs_insertAddr hl

/-- New addresses of one base type stay in their order. -/
theorem withKey_putAddrs (hd : DistinctAddrs (m ++ l)) (k : UInt32) :
    withKey baseType k (putAddrs nodeRule m l) = withKey baseType k (m ++ l) := by
  induction l generalizing m with
  | nil =>
    rw [List.append_nil]
    rfl
  | cons a l ih =>
    obtain ⟨hput, hnext⟩ := @putAddrs_cons_new nodeRule _ _ _ hd
    rw [hput, ih hnext, withKey_append, withKey_insertAddr, ← withKey_append, List.append_assoc]
    rfl

/-- Distinct addresses are put into the stable sort. -/
theorem putAddrs_eq_stableSort (hd : DistinctAddrs l) :
    putAddrs nodeRule [] l = stableSort baseType l :=
  eq_stableSort (@sortedAddrs_putAddrs nodeRule [] l hd List.Pairwise.nil)
    (@withKey_putAddrs l [] hd)

end Insertion

/-! ## Copies -/

section Copies

variable {moves : Int → Bool} {r : VnodeRecord} {src : VnodeInfo}

/-- A block of the heap with its capacity or the fixed form, whatever it holds. -/
structure VnodeRecord.Shaped (r : VnodeRecord) : Prop where
  fitting : r.info.Fitting
  fixed : r.owner = .fixed → r.info.capc = MAX_ADDRS

/-- The record of the same node with the same addresses, in the order of their base types. -/
structure CopyOf (dest src : VnodeInfo) : Prop where
  header : SameHeader dest src
  used : dest.used = stableSort baseType src.used

theorem VnodeRecord.Kept.shaped (h : r.Kept) : r.Shaped := ⟨h.sound.toFitting, h.fixed⟩

theorem VnodeRecord.Shaped.copy (hr : r.Shaped) (hmax : src.naddrs ≤ MAX_ADDRS)
    (hstored : src.naddrs ≤ src.addrs.length) (hd : DistinctAddrs src.used) :
    ∃ r' ret, r.copy moves src = .ok (r', ret) ∧ 0 ≤ ret ∧ CopyOf r'.info src ∧ r'.Kept := by
  obtain ⟨r', ret, hcopy, hk⟩ := @VnodeRecord.copy_kept moves r src hr.fitting hr.fixed hstored
  obtain ⟨d, ret', hd', hret, -, hid, hver, hweight, hused⟩ :=
    vnodeInfoCopy_ok hr.fitting hmax hstored
  rw [VnodeRecord.copy_info hcopy] at hd'
  cases hd'
  refine ⟨r', ret, hcopy, hret, ⟨⟨hid, hver, hweight⟩, ?_⟩, hk⟩
  rw [hused, putAddrs_eq_stableSort hd]

theorem VnodeRecord.Kept.stored (h : r.Kept) : r.info.naddrs ≤ r.info.addrs.length := by
  have hs := h.sound.slots
  have hle := h.sound.naddrs_le
  omega

/-- A copy into any record of a known shape, from one with at most twelve distinct addresses,
succeeds whether or not `realloc` moves a block. It holds the stable sort of the addresses of the
source by their types, which are as they were if they were sorted, and it is itself copied
unchanged. -/
theorem record_copy_sorts (hr : r.Shaped) (hmax : src.naddrs ≤ MAX_ADDRS)
    (hstored : src.naddrs ≤ src.addrs.length) (hd : DistinctAddrs src.used) :
    ∃ r' ret, r.copy moves src = .ok (r', ret) ∧ 0 ≤ ret ∧ CopyOf r'.info src ∧
      (SortedBy baseType src.used → r'.info.used = src.used) ∧
      ∀ (moves' : Int → Bool) (s : VnodeRecord), s.Shaped →
        ∃ s' ret', s.copy moves' r'.info = .ok (s', ret') ∧ 0 ≤ ret' ∧
          SameHeader s'.info r'.info ∧ s'.info.used = r'.info.used := by
  obtain ⟨r', ret, hcopy, hret, hof, hk⟩ := @VnodeRecord.Shaped.copy moves r src hr hmax hstored hd
  refine ⟨r', ret, hcopy, hret, hof, fun hsorted => ?_, fun moves' s hs => ?_⟩
  · rw [hof.used, stableSort_of_sorted hsorted]
  · obtain ⟨s', ret', hcopy', hret', hof', -⟩ :=
      @VnodeRecord.Shaped.copy moves' s r'.info hs hk.sound.naddrs_le_max hk.stored hk.distinct
    refine ⟨s', ret', hcopy', hret', hof'.header, ?_⟩
    rw [hof'.used]
    apply stableSort_of_sorted
    rw [hof.used]
    exact sortedBy_stableSort _

/-- An address that differs from the others by its port. -/
def portAddr (port : UInt16) : SockaddrIn := ⟨2, port, 0, Block.zero 8⟩

/-- A record of the zero identifier with room for four addresses. -/
def infoOf (ver : Token) (naddrs : Int) (a b c d : VsockaddrIn) : VnodeInfo where
  naddrs := naddrs
  capc := 4
  addrs := [a, b, c, d]
  id := Block.zero VTOKEN_LEN
  ver := ver
  weight := 0

/-- A relayed address in front of a local one, copied over a record that counts seven addresses. -/
theorem record_copy_sorts_two :
    ∃ r' ret, VnodeRecord.copy (fun _ => true)
        ⟨.heap, 0, infoOf (Block.zero VTOKEN_LEN) 7 zeroAddr zeroAddr zeroAddr zeroAddr⟩
        (infoOf (Block.zero VTOKEN_LEN) 2 ⟨portAddr 1, 3⟩ ⟨portAddr 2, 0⟩ zeroAddr zeroAddr) =
        .ok (r', ret) ∧
      CopyOf r'.info
        (infoOf (Block.zero VTOKEN_LEN) 2 ⟨portAddr 1, 3⟩ ⟨portAddr 2, 0⟩ zeroAddr zeroAddr) := by
  obtain ⟨r', ret, hcopy, -, hof, -⟩ := @record_copy_sorts (fun _ => true)
    ⟨.heap, 0, infoOf (Block.zero VTOKEN_LEN) 7 zeroAddr zeroAddr zeroAddr zeroAddr⟩
    (infoOf (Block.zero VTOKEN_LEN) 2 ⟨portAddr 1, 3⟩ ⟨portAddr 2, 0⟩ zeroAddr zeroAddr)
    ⟨⟨by decide, by decide, by decide, by decide⟩, by rintro ⟨⟩⟩ (by decide) (by decide)
    (List.pairwise_pair.mpr rfl)
  exact ⟨r', ret, hcopy, hof⟩

end Copies

end Vdht.NodeId
