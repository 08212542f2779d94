import Vdht.Route.InfoRun
import Vdht.NodeId.Merge

/-!
# Runs that keep the addresses in order

A new address is inserted at its place, a copy is filled address by address, and a merge leaves the
base types of the addresses it overwrites. A known address that is announced again takes the new
type where it stands. The order lasts exactly as long as every such type fits in between the
neighbours.
-/

namespace Vdht.NodeId

open Lib

variable {moves : Int → Bool} {r r' : VnodeRecord} {l m : List VsockaddrIn} {a : VsockaddrIn}
  {addr : SockaddrIn} {type : UInt32} {ret : Int}

/-- Base types never decrease along the addresses, and the address at the end is one of greatest
base type. -/
def Ordered (n : VnodeInfo) : Prop :=
  SortedBy baseType n.used ∧
    (1 ≤ n.naddrs → ∃ a ∈ n.used, vnodeInfoWorstAddr n = .ok a.addr ∧
      ∀ b ∈ n.used, baseType b ≤ baseType a)

/-- The type is unknown, the address is new, or the type fits in the place of the address. -/
def FitsAt (l : List VsockaddrIn) (addr : SockaddrIn) (type : UInt32) : Prop :=
  vsockaddrType type ≠ VSOCKADDR_UNKNOWN →
    ∀ m a k, l = m ++ a :: k → vsockaddrEqual a.addr addr = true →
      (∀ b ∈ m, baseType b ≤ vsockaddrType type) ∧ ∀ b ∈ k, vsockaddrType type ≤ baseType b

/-- The condition on one call. -/
def TypeFits (r : VnodeRecord) : RecordOp → Prop
  | .addAddr addr type => r.info.naddrs < MAX_ADDRS → FitsAt r.info.used addr type
  | _ => True

/-- The call leaves the record in order when it returns. -/
def LeavesOrdered (moves : Int → Bool) (r : VnodeRecord) (op : RecordOp) : Prop :=
  ∀ r', recordStep moves r op = .ok r' → Ordered r'.info

/-! ## The last address -/

theorem vnodeInfoWorstAddr_concat {n : VnodeInfo} (hn : n.Sound) (h : n.used = l ++ [a]) :
    vnodeInfoWorstAddr n = .ok a.addr := by
  have hlen := hn.length_used
  rw [h, List.length_append, List.length_singleton] at hlen
  have hlast : (n.naddrs - 1).toNat = l.length := by omega
  unfold vnodeInfoWorstAddr
  rw [if_neg (by omega), hlast, ← n.used_append, h, List.append_assoc, List.singleton_append,
    getSlot_behind]

/-- A sorted record is in order. -/
theorem ordered_iff {n : VnodeInfo} (hn : n.Sound) : Ordered n ↔ SortedBy baseType n.used := by
  refine ⟨And.left, fun hs => ⟨hs, fun hpos => ?_⟩⟩
  rcases List.eq_nil_or_concat' n.used with hnil | ⟨l, a, hl⟩
  · have hlen := hn.length_used
    rw [hnil, List.length_nil] at hlen
    omega
  · rw [hl] at hs
    have hmem : a ∈ n.used := by
      rw [hl]
      exact List.mem_append_right l List.mem_cons_self
    refine ⟨a, hmem, vnodeInfoWorstAddr_concat hn hl, fun b hb => ?_⟩
    rw [hl, List.mem_append, List.mem_singleton] at hb
    rcases hb with hb | rfl
    · exact (sortedBy_concat.mp hs).2 b hb
    · exact UInt32.le_refl _

/-! ## Adding an address -/

/-- A known address stands at one place. -/
theorem known_split {m' k k' : List VsockaddrIn} {a' : VsockaddrIn}
    (hd : DistinctAddrs (m ++ a :: k)) (ha : vsockaddrEqual a.addr addr = true)
    (ha' : vsockaddrEqual a'.addr addr = true) (h : m ++ a :: k = m' ++ a' :: k') :
    m = m' ∧ a = a' ∧ k = k' := by
  have hsame : vsockaddrEqual a'.addr a.addr = true :=
    vsockaddrEqual_trans ha' (vsockaddrEqual_symm ha)
  have hm : a' ∉ m := by
    intro hmem
    apply not_hasAddr_of_pairwise hd
    exact ⟨a', hmem, hsame⟩
  have hk : a' ∉ k := by
    intro hmem
    obtain ⟨-, hak, -⟩ := List.pairwise_append.mp hd
    have hne := (List.pairwise_cons.mp hak).1 a' hmem
    rw [vsockaddrEqual_symm hsame] at hne
    cases hne
  exact (List.append_cons_inj_of_notMem hm hk).mp h

/-- A known address that takes another type leaves the order when the type fits. -/
theorem sortedBy_putAddr_iff (hd : DistinctAddrs l) (hl : SortedBy baseType l) :
    SortedBy baseType (putAddr nodeRule l addr type) ↔ FitsAt l addr type := by
  unfold putAddr
  cases hf : findAddr nodeRule.retype addr type l with
  | none =>
    apply iff_of_true (sortedBy_insertAddr hl)
    rintro - m a k rfl ha
    exact absurd (hasAddr_middle.mpr (Or.inr ha)) (findAddr_eq_none.mp hf)
  | some l' =>
    obtain ⟨m, a, k, rfl, ha, rfl⟩ := findAddr_split hf
    obtain ⟨hmk, hma, hak⟩ := sortedBy_middle.mp hl
    by_cases hkeep : vsockaddrType type ≠ VSOCKADDR_UNKNOWN ∧ baseType a ≠ vsockaddrType type
    · have hretype : nodeRule.retype a.type type = type := if_pos hkeep
      rw [hretype]
      show SortedBy baseType (m ++ _ :: k) ↔ _
      rw [sortedBy_middle, and_iff_right hmk]
      constructor
      · rintro hfits - m' a' k' heq ha'
        obtain ⟨rfl, rfl, rfl⟩ := known_split hd ha ha' heq
        exact hfits
      · intro hfits
        exact hfits hkeep.1 m a k rfl ha
    · have hretype : nodeRule.retype a.type type = a.type := if_neg hkeep
      rw [hretype]
      apply iff_of_true hl
      intro hknown m' a' k' heq ha'
      obtain ⟨rfl, rfl, rfl⟩ := known_split hd ha ha' heq
      have hbase : baseType a = vsockaddrType type := by
        by_contra hne
        exact hkeep ⟨hknown, hne⟩
      rw [← hbase]
      exact ⟨hma, hak⟩

/-! ## Copies and merges -/

/-- An unknown address is inserted, or there is no room for it. -/
theorem addUnknown_used {b b' : AddrBlock} (hb : b.Sound nodeRule) (hnew : ¬ HasAddr b.used addr)
    (hadd : addAddr nodeRule b addr type = .ok (b', ret)) :
    b'.used = insertAddr nodeRule.key ⟨addr, type⟩ b.used ∨ b' = b ∧ ret = -1 := by
  rcases Int.lt_or_le b.naddrs MAX_ADDRS with hlt | hge
  · obtain ⟨c, ret', hc, -, -, hused, -⟩ := @addAddr_ok nodeRule b hb hlt addr type rfl
    rw [hc] at hadd
    cases hadd
    rw [hused, putAddr, findAddr_eq_none.mpr hnew]
    exact Or.inl rfl
  · rw [@addAddr_full nodeRule b hge addr type rfl] at hadd
    cases hadd
    exact Or.inr ⟨rfl, rfl⟩

theorem sorted_addUnknown {b b' : AddrBlock} (hb : b.Sound nodeRule) (hs : SortedBy baseType b.used)
    (hnew : ¬ HasAddr b.used addr) (hadd : addAddr nodeRule b addr type = .ok (b', ret)) :
    SortedBy baseType b'.used := by
  rcases addUnknown_used hb hnew hadd with hused | ⟨rfl, -⟩
  · rw [hused]
    exact sortedBy_insertAddr hs
  · exact hs

/-- Distinct addresses are copied in order, also where they do not all fit. -/
theorem sorted_copyAddrs {src : List VsockaddrIn} {n : Nat} {b b' : AddrBlock} {fit : Bool}
    (hb : b.Sound nodeRule) (hs : SortedBy baseType b.used)
    (hd : DistinctAddrs (b.used ++ src.take n)) (h : copyAddrs nodeRule src n b = .ok (b', fit)) :
    SortedBy baseType b'.used := by
  induction src generalizing n b with
  | nil =>
    cases n with
    | zero =>
      cases h
      exact hs
    | succ n => cases h
  | cons a src ih =>
    cases n with
    | zero =>
      cases h
      exact hs
    | succ n =>
      rw [List.take_succ_cons] at hd
      have hnew := not_hasAddr_of_pairwise hd
      unfold copyAddrs at h
      split at h
      · cases h
      · rename_i c ret hc
        have hsorted := sorted_addUnknown hb hs hnew hc
        split at h
        · cases h
          exact hsorted
        · rename_i hpos
          refine ih (addAddr_keeps hb hc).1 hsorted ?_ h
          rcases addUnknown_used hb hnew hc with hused | ⟨-, hneg⟩
          · rw [hused]
            apply (distinctAddrs_perm ?_).mpr hd
            exact ((insertAddr_perm _ _ _).append_right _).trans List.perm_middle.symm
          · omega

theorem sorted_copy {dest src d : VnodeInfo} (hdest : dest.Fitting) (hd : DistinctAddrs src.used)
    (h : vnodeInfoCopy dest src = .ok (d, ret)) : SortedBy baseType d.used := by
  obtain ⟨c, hc, hcs, hc0⟩ := clearAddrs_ok hdest
  have hnil := c.used_eq_nil hc0
  unfold vnodeInfoCopy at h
  rw [hc] at h
  dsimp only at h
  split at h
  · cases h
  · rename_i b fit hb
    cases h
    refine sorted_copyAddrs hcs ?_ ?_ hb
    · rw [hnil]
      exact List.Pairwise.nil
    · rw [hnil]
      exact hd

theorem sorted_merge {dest src d : VnodeInfo} (hdest : dest.Sound) (hs : SortedBy baseType dest.used)
    (hd : DistinctAddrs src.used) (h : vnodeInfoMerge dest src = .ok (d, ret)) :
    SortedBy baseType d.used := by
  unfold vnodeInfoMerge at h
  split at h
  · cases h
    exact hs
  · split at h
    · split at h
      · cases h
      · rename_i b ret' hb
        cases h
        refine (mergeFake_invariant
          (I := fun c => c.Sound nodeRule ∧ SortedBy baseType c.used) ?_ ⟨hdest, hs⟩ hb).2
        intro c c' addr type ret ⟨hc, hsorted⟩ hnew hadd
        rw [vnodeInfoHasAddr_eq hc] at hnew
        refine ⟨(addAddr_keeps hc hadd).1, sorted_addUnknown hc hsorted ?_ hadd⟩
        show ¬ ∃ x ∈ c.used, _
        rw [← List.any_eq_true, Except.ok.inj hnew]
        exact Bool.false_ne_true
    · split at h
      · split at h
        · cases h
        · rename_i c ret' hc
          cases h
          exact sorted_copy hdest.toFitting hd hc
      · rename_i hn
        split at h
        · cases h
        · rename_i addrs updated hm
          cases h
          have htypes := mergeSame_types hm
          rw [← not_not.mp hn] at htypes
          apply List.pairwise_map.mp
          show ((addrs.take dest.naddrs.toNat).map baseType).Pairwise _
          rw [htypes]
          exact List.pairwise_map.mpr hs

/-! ## Runs -/

/-- What holds of a record before every call. -/
structure VnodeRecord.KeptSorted (r : VnodeRecord) : Prop where
  kept : r.Kept
  sorted : SortedBy baseType r.info.used

theorem recordStep_inv (h : r.Kept) {op : RecordOp} (hstep : recordStep moves r op = .ok r') :
    r'.Kept := by
  have hop : PointerLasts moves r op := by
    by_contra hnot
    rw [recordStep_moved h hnot] at hstep
    cases hstep
  obtain ⟨s, hs, hk⟩ := recordStep_kept h hop
  rw [hs] at hstep
  cases hstep
  exact hk

/-- One call. -/
theorem sorted_recordStep_iff (h : r.KeptSorted) {op : RecordOp}
    (hstep : recordStep moves r op = .ok r') :
    SortedBy baseType r'.info.used ↔ TypeFits r op := by
  cases op with
  | addAddr addr type =>
    obtain ⟨⟨s, ret⟩, hadd, rfl⟩ := map_ok hstep
    rcases Int.lt_or_le r.info.naddrs MAX_ADDRS with hlt | hge
    · obtain ⟨s', ret', hadd', -, -, -, -, hused⟩ :=
        @VnodeRecord.Kept.addAddr moves r h.kept hlt addr type
      rw [hadd'] at hadd
      cases hadd
      rw [hused, sortedBy_putAddr_iff h.kept.distinct h.sorted]
      exact ⟨fun hfits _ => hfits, fun hfits => hfits hlt⟩
    · rw [VnodeRecord.addAddr_full hge] at hadd
      cases hadd
      exact iff_of_true h.sorted fun hlt => absurd hlt (Int.not_lt.mpr hge)
  | copy src =>
    obtain ⟨⟨s, ret⟩, hcopy, rfl⟩ := map_ok hstep
    refine iff_of_true ?_ trivial
    exact sorted_copy h.kept.sound.toFitting src.distinct (VnodeRecord.copy_info hcopy)
  | merge src =>
    obtain ⟨⟨s, ret⟩, hmerge, rfl⟩ := map_ok hstep
    refine iff_of_true ?_ trivial
    exact sorted_merge h.kept.sound h.sorted src.distinct (VnodeRecord.merge_info hmerge)

theorem leavesOrdered_iff (h : r.KeptSorted) (op : RecordOp) :
    LeavesOrdered moves r op ↔ TypeFits r op := by
  constructor
  · intro hleaves
    cases op with
    | addAddr addr type =>
      obtain ⟨r', hstep, hk⟩ := @recordStep_kept moves r h.kept (.addAddr addr type) trivial
      exact (sorted_recordStep_iff h hstep).mp ((ordered_iff hk.sound).mp (hleaves r' hstep))
    | copy src => trivial
    | merge src => trivial
  · intro hfits r' hstep
    have hk := recordStep_inv h.kept hstep
    exact (ordered_iff hk.sound).mpr ((sorted_recordStep_iff h hstep).mpr hfits)

theorem Allocator.keptSorted (a : Allocator) : a.record.KeptSorted := by
  refine ⟨a.kept, ?_⟩
  cases a <;> exact List.Pairwise.nil

/-- For records from every source and every behaviour of `realloc`: the addresses of the fresh
record are in order, and every call of a run that returns leaves them so, exactly when every known
address that is announced again, while there is room, has its new type in its place. -/
theorem record_ordered_iff (moves : Int → Bool) (a : Allocator) (ops : List RecordOp) :
    Ordered a.record.info ∧ Along (recordStep moves) (LeavesOrdered moves) a.record ops ↔
      Along (recordStep moves) TypeFits a.record ops := by
  have ha := a.keptSorted
  rw [and_iff_right ((ordered_iff ha.kept.sound).mpr ha.sorted)]
  refine along_iff (fun r op hr => leavesOrdered_iff hr op) (fun r op r' hr hop hstep => ?_) ha
  exact ⟨recordStep_inv hr.kept hstep, (sorted_recordStep_iff hr hstep).mpr hop⟩

/-- A local address that is announced once more as a relayed one stays in front of the address of
the port mapping. -/
theorem retyped_address_out_of_order :
    ¬ (Ordered Allocator.vnodeInfoAlloc.record.info ∧
      Along (recordStep fun _ => true) (LeavesOrdered fun _ => true)
        Allocator.vnodeInfoAlloc.record
        [.addAddr (addrOf 1) VSOCKADDR_LOCAL, .addAddr (addrOf 2) VSOCKADDR_UPNP,
          .addAddr (addrOf 1) VSOCKADDR_RELAY]) := by
  rintro ⟨-, hrun⟩
  obtain ⟨-, hrest⟩ := hrun
  obtain ⟨-, hrest⟩ := hrest _ rfl
  obtain ⟨hlast, -⟩ := hrest _ rfl
  obtain ⟨hsorted, -⟩ := hlast _ rfl
  have hpair : SortedBy baseType
      [⟨addrOf 1, VSOCKADDR_RELAY⟩, ⟨addrOf 2, VSOCKADDR_UPNP⟩] := hsorted
  have hle := List.pairwise_pair.mp hpair
  revert hle
  decide

end Vdht.NodeId
