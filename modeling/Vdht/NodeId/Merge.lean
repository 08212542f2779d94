import Vdht.NodeId.Order

/-!
# Merging an announced record

A record of known version is to replace the stored one. With another number of addresses it is
copied; with the same number the addresses are overwritten one by one, and each keeps the base type
of the address that was stored in its place. A fake record only contributes addresses that are not
stored yet, one after the other until the stored record is full.
-/

namespace Vdht.NodeId

open Lib

variable {moves : Int → Bool} {r : VnodeRecord} {src : VnodeInfo} {dest l : List VsockaddrIn} {n : Nat}

/-! ## Known versions -/

/-- A node info with at most twelve addresses, all of them there and distinct, in the order of
their base types. -/
structure Listed (src : VnodeInfo) : Prop where
  nonneg : 0 ≤ src.naddrs
  le_max : src.naddrs ≤ MAX_ADDRS
  stored : src.naddrs ≤ src.addrs.length
  distinct : DistinctAddrs src.used
  sorted : SortedBy baseType src.used

/-- An address as `vsockaddr_equal` sees it, and its base type. -/
def addrAndType (a : VsockaddrIn) : AddrKey × UInt32 := (addrKey a, baseType a)

/-- The merge leaves the version, the weight and the addresses of the source, and merging the source
once more changes nothing. -/
def TakesOver (moves : Int → Bool) (r : VnodeRecord) (src : VnodeInfo) : Prop :=
  ∃ r' ret, r.merge moves src = .ok (r', ret) ∧ r'.info.id = src.id ∧ r'.info.ver = src.ver ∧
    r'.info.weight = src.weight ∧ r'.info.used.map addrAndType = src.used.map addrAndType ∧
    r'.merge moves src = .ok (r', 0)

theorem map_addrAndType {l m : List VsockaddrIn} :
    l.map addrAndType = m.map addrAndType ↔
      l.map addrKey = m.map addrKey ∧ l.map baseType = m.map baseType := by
  constructor
  · intro h
    have hkey := congrArg (List.map Prod.fst) h
    have htype := congrArg (List.map Prod.snd) h
    rw [List.map_map, List.map_map] at hkey htype
    exact ⟨hkey, htype⟩
  · rintro ⟨hkey, htype⟩
    have hzip : ∀ k : List VsockaddrIn,
        (k.map addrKey).zip (k.map baseType) = k.map addrAndType := fun k => List.zip_map' ..
    rw [← hzip, ← hzip, hkey, htype]

theorem vsockaddrType_idem (type : UInt32) : vsockaddrType (vsockaddrType type) = vsockaddrType type := by
  unfold vsockaddrType
  rw [← UInt32.and_assoc, UInt32.and_self]

/-- The base types stay where they are. -/
theorem mergeSame_types {rest : List VsockaddrIn} {updated : Bool}
    (h : mergeSame dest l n = .ok (rest, updated)) :
    (rest.take n).map baseType = (dest.take n).map baseType := by
  induction n generalizing dest l rest updated with
  | zero => rfl
  | succ n ih =>
    cases dest with
    | nil =>
      unfold mergeSame at h
      cases h
    | cons d dest =>
      cases l with
      | nil =>
        unfold mergeSame at h
        cases h
      | cons s l =>
        unfold mergeSame at h
        split at h
        · cases h
        · rename_i rest' updated' hrest
          have htail := ih hrest
          split at h
          · cases h
            simp only [List.take_succ_cons, List.map_cons, htail]
          · cases h
            simp only [List.take_succ_cons, List.map_cons, htail]
            exact congrArg (· :: _) (vsockaddrType_idem d.type)

/-- Where the addresses agree nothing is overwritten. -/
theorem mergeSame_equal (hd : n ≤ dest.length)
    (h : (dest.take n).map addrKey = (l.take n).map addrKey) :
    mergeSame dest l n = .ok (dest, false) := by
  induction n generalizing dest l with
  | zero => unfold mergeSame; rfl
  | succ n ih =>
    cases dest with
    | nil => simp at hd
    | cons d dest =>
      cases l with
      | nil => simp at h
      | cons s l =>
        simp only [List.take_succ_cons, List.map_cons, List.cons.injEq] at h
        have heq : vsockaddrEqual d.addr s.addr = true := vsockaddrEqual_iff_key.mpr h.1
        unfold mergeSame
        rw [ih (by simpa using hd) h.2]
        exact if_pos heq

theorem Listed.length_used (h : Listed src) : (src.used.length : Int) = src.naddrs := by
  have h0 := h.nonneg
  have hst := h.stored
  simp only [AddrBlock.used, List.length_take]
  omega

/-- Merging a source whose header and addresses are there already. -/
theorem merge_again (hstored : r.info.naddrs ≤ r.info.addrs.length) (hheader : SameHeader r.info src)
    (hreal : vnodeInfoIsFake src = false) (hn : r.info.naddrs = src.naddrs)
    (hkeys : r.info.used.map addrKey = src.used.map addrKey) :
    r.merge moves src = .ok (r, 0) := by
  obtain ⟨hid, hver, hweight⟩ := hheader
  have hsame : mergeSame r.info.addrs src.addrs src.naddrs.toNat = .ok (r.info.addrs, false) := by
    apply mergeSame_equal
    · omega
    · rw [← hn]
      rw [AddrBlock.used, AddrBlock.used, ← hn] at hkeys
      exact hkeys
  unfold VnodeRecord.merge
  rw [if_neg (by simpa using hid), hreal, if_neg (by simp), if_neg (by simpa using hn), hsame,
    ← hver, ← hweight]
  rfl

/-- A source with another number of addresses is copied. -/
theorem merge_copied (hk : r.Kept) (hs : Listed src) (hid : r.info.id = src.id)
    (hreal : vnodeInfoIsFake src = false) (hn : r.info.naddrs ≠ src.naddrs) :
    TakesOver moves r src := by
  obtain ⟨r', ret, hcopy, hret, hof, hk'⟩ :=
    @VnodeRecord.Shaped.copy moves r src hk.shaped hs.le_max hs.stored hs.distinct
  have hused : r'.info.used = src.used := by
    rw [hof.used, stableSort_of_sorted hs.sorted]
  have hn' : r'.info.naddrs = src.naddrs := by
    rw [← hk'.sound.length_used, ← hs.length_used, hused]
  obtain ⟨hid', hver', hweight'⟩ := hof.header
  refine ⟨r', 1, ?_, hid', hver', hweight', by rw [hused], ?_⟩
  · unfold VnodeRecord.merge
    rw [if_neg (by simpa using hid), hreal, if_neg (by simp), if_pos hn, hcopy]
    dsimp only
    rw [if_neg (by omega)]
  · exact merge_again hk'.stored hof.header hreal hn' (by rw [hused])

/-- With the same number of addresses the base types stay. -/
theorem merge_overwritten (hk : r.Kept) (hs : Listed src) (hid : r.info.id = src.id)
    (hreal : vnodeInfoIsFake src = false) (hn : r.info.naddrs = src.naddrs) :
    ∃ r' ret, r.merge moves src = .ok (r', ret) ∧ SameHeader r'.info src ∧
      r'.info.used.map addrKey = src.used.map addrKey ∧
      r'.info.used.map baseType = r.info.used.map baseType ∧ r'.merge moves src = .ok (r', 0) := by
  have hstored := hk.stored
  have hst := hs.stored
  obtain ⟨addrs, updated, hm⟩ :=
    @mergeSame_total r.info.addrs src.addrs src.naddrs.toNat (by omega) (by omega)
  have hlen : r.info.naddrs ≤ addrs.length := by
    rw [mergeSame_length hm]
    exact hstored
  have hkeys : (addrs.take r.info.naddrs.toNat).map addrKey = src.used.map addrKey := by
    rw [hn]
    exact mergeSame_keys hm
  have htypes : (addrs.take r.info.naddrs.toNat).map baseType = r.info.used.map baseType := by
    rw [AddrBlock.used, hn]
    exact mergeSame_types hm
  refine ⟨{ r with info := { r.info with ver := src.ver, weight := src.weight, addrs := addrs } },
    if updated then 1 else 0, ?_, ⟨hid, rfl, rfl⟩, hkeys, htypes,
    merge_again hlen ⟨hid, rfl, rfl⟩ hreal hn hkeys⟩
  unfold VnodeRecord.merge
  rw [if_neg (by simpa using hid), hreal, if_neg (by simp), if_neg (by simpa using hn), hm]

/-- Merging a listed record of known version and of the same id into one that is kept, whether or
not `realloc` moves its block. It leaves the version, the weight and the addresses of the source,
and a second merge changes nothing, exactly when equal numbers of addresses come with equal base
types, position by position. -/
theorem record_merge_iff (hk : r.Kept) (hs : Listed src) (hid : r.info.id = src.id)
    (hreal : vnodeInfoIsFake src = false) :
    TakesOver moves r src ↔
      (r.info.naddrs = src.naddrs → r.info.used.map baseType = src.used.map baseType) := by
  by_cases hn : r.info.naddrs = src.naddrs
  · obtain ⟨r', ret, hm, ⟨hid', hver', hweight'⟩, hkeys, htypes, hagain⟩ :=
      @merge_overwritten moves r src hk hs hid hreal hn
    rw [forall_prop_of_true hn, ← htypes]
    constructor
    · rintro ⟨d, ret', hd, -, -, -, hmap, -⟩
      rw [hm] at hd
      cases hd
      exact (map_addrAndType.mp hmap).2
    · intro hsame
      exact ⟨r', ret, hm, hid', hver', hweight', map_addrAndType.mpr ⟨hkeys, hsame⟩, hagain⟩
  · exact iff_of_true (merge_copied hk hs hid hreal hn) fun h => absurd h hn

/-- A version that is not the unknown one. -/
def knownVer : Token := Block.ofList VTOKEN_LEN [1]

/-- A node info of a known version with one address. -/
def oneAddr (type : UInt32) : VnodeInfo :=
  infoOf knownVer 1 ⟨portAddr 1, type⟩ zeroAddr zeroAddr zeroAddr

theorem kept_oneAddr (type : UInt32) : VnodeRecord.Kept ⟨.heap, 0, oneAddr type⟩ := by
  have hcapc : (0 : Int) ≤ 4 ∧ (4 : Int) ≤ MAX_ADDRS ∧ (4 : Int) ∣ 4 := by decide
  have hnaddrs : (0 : Int) ≤ 1 ∧ (1 : Int) ≤ 4 := by decide
  refine ⟨⟨⟨hcapc.1, hcapc.2.1, hcapc.2.2, rfl⟩, hnaddrs.1, hnaddrs.2⟩, ?_, by rintro ⟨⟩⟩
  exact List.pairwise_singleton _ _

theorem listed_oneAddr (type : UInt32) : Listed (oneAddr type) := by
  have hnaddrs : (0 : Int) ≤ 1 ∧ (1 : Int) ≤ MAX_ADDRS ∧ (1 : Int) ≤ 4 := by decide
  exact ⟨hnaddrs.1, hnaddrs.2.1, hnaddrs.2.2, List.pairwise_singleton _ _,
    List.pairwise_singleton _ _⟩

/-- A node info with three addresses: a local, a mapped and a reflexive one. -/
def threePorts (port : UInt16) : VnodeInfo :=
  infoOf knownVer 3 ⟨portAddr 1, VSOCKADDR_LOCAL⟩ ⟨portAddr port, VSOCKADDR_UPNP⟩
    ⟨portAddr (port + 1), VSOCKADDR_REFLEXIVE⟩ zeroAddr

/-- Two of three addresses have changed, and their base types are those of the addresses before. -/
theorem record_merge_iff_reflexive :
    TakesOver (fun _ => true) ⟨.heap, 0, threePorts 5⟩ (threePorts 8) := by
  have hslots : (0 : Int) ≤ 4 ∧ (4 : Int) ≤ MAX_ADDRS ∧ (4 : Int) ∣ 4 := by decide
  have hnaddrs : (0 : Int) ≤ 3 ∧ (3 : Int) ≤ 4 ∧ (3 : Int) ≤ MAX_ADDRS := by decide
  have hdistinct : DistinctAddrs (threePorts 5).used ∧ DistinctAddrs (threePorts 8).used := by
    unfold DistinctAddrs
    decide
  have hsorted : SortedBy baseType (threePorts 8).used := by
    unfold SortedBy
    decide
  have hkept : VnodeRecord.Kept ⟨.heap, 0, threePorts 5⟩ :=
    ⟨⟨⟨hslots.1, hslots.2.1, hslots.2.2, rfl⟩, hnaddrs.1, hnaddrs.2.1⟩, hdistinct.1, by rintro ⟨⟩⟩
  have hlisted : Listed (threePorts 8) :=
    ⟨hnaddrs.1, hnaddrs.2.2, hnaddrs.2.1, hdistinct.2, hsorted⟩
  exact (record_merge_iff hkept hlisted rfl rfl).mpr fun _ => rfl

/-- An address announced as reflexive that is stored as local stays local. -/
theorem merge_keeps_local_type :
    VnodeRecord.Kept ⟨.heap, 0, oneAddr VSOCKADDR_LOCAL⟩ ∧ Listed (oneAddr VSOCKADDR_REFLEXIVE) ∧
      ¬ TakesOver (fun _ => true) ⟨.heap, 0, oneAddr VSOCKADDR_LOCAL⟩
        (oneAddr VSOCKADDR_REFLEXIVE) := by
  refine ⟨kept_oneAddr _, listed_oneAddr _, ?_⟩
  rintro ⟨r', ret, hm, -, -, -, hmap, -⟩
  have hmerge : VnodeRecord.merge (fun _ => true) ⟨.heap, 0, oneAddr VSOCKADDR_LOCAL⟩
      (oneAddr VSOCKADDR_REFLEXIVE) = .ok (⟨.heap, 0, oneAddr VSOCKADDR_LOCAL⟩, 0) := rfl
  rw [hmerge] at hm
  cases hm
  have htypes := (map_addrAndType.mp hmap).2
  revert htypes
  decide

/-! ## Fake records -/

/-- The number of addresses in `l` that are not in use yet. -/
def unknownAddrs (used l : List VsockaddrIn) : Nat := l.countP fun a => !knows used a

/-- A merge that returns `-1` leaves the record as it was, wherever `realloc` puts the block. -/
def KeepsOnFailure (r : VnodeRecord) (src : VnodeInfo) : Prop :=
  ∀ moves r', r.merge moves src = .ok (r', -1) →
    SameHeader r'.info r.info ∧ r'.info.used = r.info.used

/-- The addresses of a fake source are added until the record is full. -/
theorem mergeFake_result {b : AddrBlock} (updated : Bool) (hb : b.Sound nodeRule)
    (hn : n ≤ l.length) (hd : DistinctAddrs (l.take n)) :
    ∃ b' ret, mergeFake l n b updated = .ok (b', ret) ∧
      (b.naddrs + unknownAddrs b.used (l.take n) ≤ MAX_ADDRS → 0 ≤ ret) ∧
      (MAX_ADDRS < b.naddrs + unknownAddrs b.used (l.take n) →
        ret = -1 ∧ b'.naddrs = MAX_ADDRS ∧ (b.naddrs = MAX_ADDRS → b' = b)) := by
  have hmax := hb.naddrs_le_max
  induction l generalizing n b updated with
  | nil =>
    cases n with
    | zero =>
      refine ⟨b, _, rfl, fun _ => ?_, fun hover => ?_⟩
      · split <;> omega
      · simp only [List.take_nil, unknownAddrs, List.countP_nil] at hover
        omega
    | succ n => simp at hn
  | cons a l ih =>
    cases n with
    | zero =>
      refine ⟨b, _, rfl, fun _ => ?_, fun hover => ?_⟩
      · split <;> omega
      · simp only [List.take_zero, unknownAddrs, List.countP_nil] at hover
        omega
    | succ n =>
      have hn' : n ≤ l.length := by simpa using hn
      rw [List.take_succ_cons] at hd ⊢
      obtain ⟨hnew, hd'⟩ := List.pairwise_cons.mp hd
      have hhas : vnodeInfoHasAddr b a.addr = .ok (knows b.used a) := vnodeInfoHasAddr_eq hb a.addr
      unfold mergeFake
      rw [hhas]
      cases ha : knows b.used a with
      | true =>
        have hcount : unknownAddrs b.used (a :: l.take n) = unknownAddrs b.used (l.take n) :=
          List.countP_cons_of_neg (by simp [ha])
        rw [hcount]
        exact ih updated hb hn' hd' hmax
      | false =>
        have hcount : unknownAddrs b.used (a :: l.take n) = unknownAddrs b.used (l.take n) + 1 :=
          List.countP_cons_of_pos (by simp [ha])
        dsimp only
        rcases Int.lt_or_le b.naddrs MAX_ADDRS with hlt | hge
        · obtain ⟨c, ret, hadd, hret, hc, hused, -, -⟩ := @addAddr_ok nodeRule b hb hlt a.addr a.type rfl
          rw [hadd]
          dsimp only
          rw [if_neg (by omega)]
          have hnaddrs := naddrs_putAddr hb hc ha hused
          have hsame : unknownAddrs c.used (l.take n) = unknownAddrs b.used (l.take n) := by
            rw [hused]
            exact countP_unknown_putAddr hnew
          obtain ⟨b', ret', hm, hfit, hover⟩ := ih true hc hn' hd' hc.naddrs_le_max
          rw [hsame] at hfit hover
          refine ⟨b', ret', hm, fun hle => hfit (by omega), fun hgt => ?_⟩
          obtain ⟨hneg, hfull, -⟩ := hover (by omega)
          exact ⟨hneg, hfull, fun heq => by omega⟩
        · rw [@addAddr_full nodeRule b hge a.addr a.type rfl]
          exact ⟨b, -1, rfl, fun hle => by omega, fun _ => ⟨rfl, by omega, fun _ => rfl⟩⟩

/-- Only a fake source makes a merge fail, with more unknown addresses than there is room for. -/
theorem vnodeInfoMerge_fails {dest d : VnodeInfo} (hdest : dest.Sound) (hmax : src.naddrs ≤ MAX_ADDRS)
    (hstored : src.naddrs ≤ src.addrs.length) (hd : DistinctAddrs src.used)
    (h : vnodeInfoMerge dest src = .ok (d, -1)) :
    dest.id = src.id ∧ vnodeInfoIsFake src = true ∧
      MAX_ADDRS < dest.naddrs + unknownAddrs dest.used src.used ∧
      (dest.naddrs = MAX_ADDRS → d = dest) := by
  unfold vnodeInfoMerge at h
  split at h
  · cases h
  · rename_i hid
    have hid' : dest.id = src.id := by simpa using hid
    split at h
    · rename_i hfake
      obtain ⟨b', ret, hm, hfit, hover⟩ :=
        mergeFake_result false hdest (n := src.naddrs.toNat) (by omega) hd
      rw [hm] at h
      cases h
      have hgt : MAX_ADDRS < dest.naddrs + unknownAddrs dest.used src.used := by
        by_contra hle
        have := hfit (Int.not_lt.mp hle)
        omega
      refine ⟨hid', hfake, hgt, fun hfull => ?_⟩
      obtain ⟨-, -, hsame⟩ := hover hgt
      rw [hsame hfull]
    · split at h
      · obtain ⟨c, ret, hcopy, hret, -⟩ := vnodeInfoCopy_ok hdest.toFitting hmax hstored
        rw [hcopy] at h
        dsimp only at h
        rw [if_neg (by omega)] at h
        cases h
      · split at h
        · cases h
        · rename_i addrs updated hm
          cases updated with
          | true => cases h
          | false => cases h

/-- The addresses of the first ports. -/
def portAddrs (n : Nat) : List VsockaddrIn :=
  (List.range n).map fun i => ⟨portAddr (UInt16.ofNat (i + 1)), VSOCKADDR_LOCAL⟩

/-- A record of the zero identifier with eleven addresses. -/
def elevenAddrs : VnodeRecord where
  owner := .heap
  block := 0
  info :=
    { naddrs := 11
      capc := MAX_ADDRS
      addrs := portAddrs 12
      id := Block.zero VTOKEN_LEN
      ver := knownVer
      weight := 0 }

/-- A fake record of the zero identifier with the addresses of the ports 40 and 50. -/
def twoUnknown (naddrs : Int) : VnodeInfo :=
  infoOf vnodeVerUnknown naddrs ⟨portAddr 40, VSOCKADDR_LOCAL⟩ ⟨portAddr 50, VSOCKADDR_LOCAL⟩
    zeroAddr zeroAddr

theorem kept_elevenAddrs : elevenAddrs.Kept :=
  ⟨⟨⟨by decide, by decide, by decide, by decide⟩, by decide, by decide⟩,
    distinctAddrs_iff.mpr (by decide), by rintro ⟨⟩⟩

end Vdht.NodeId
