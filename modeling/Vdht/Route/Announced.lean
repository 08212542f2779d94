import Vdht.Route.SrvcSpace
import Vdht.NodeId.SrvcAddrs
import Vdht.Lib.Buckets
import Vdht.Lib.Run

/-!
# Placement of services

A service is known by the id of its host and its hash, and sits in the bucket of its host. The
scan of `add_service` keeps one candidate for two purposes: a service of the pair, or the oldest
service, which is given up when the bucket is full. In the second case the new service takes the
place of a service of another pair, and the scan has seen that its own pair is not in the bucket.
-/

namespace Vdht.Route

open NodeId Lib

/-- The pair a service is known by. -/
def srvcPair (srvci : VsrvcInfo) : Token × Token := (srvci.hostid, srvci.hash)

/-- The bucket in which an announcement of a host and a hash belongs, which the id of the host alone
decides. -/
def srvcPlace (pair : Token × Token) : Fin NBUCKETS := vsrvcIdBucket pair.1

/-- All services of the space. -/
def SrvcSpace.services (space : SrvcSpace) : List Vservice := allItems space.bucket

/-- What a bucket of the space has to satisfy. -/
structure ServiceBucket (bucketSz : Nat) (i : Fin NBUCKETS) (services : List Vservice) : Prop where
  ok : BucketOk srvcPlace (fun s : Vservice => srvcPair s.srvci) bucketSz i services
  records : ∀ s ∈ services, s.srvci.Sound

/-- What holds of a space of services in every run: each of its buckets is placed, sized and free of
doubles. -/
def SrvcSpace.Inv (space : SrvcSpace) : Prop :=
  ∀ i, ServiceBucket space.bucket_sz i (space.bucket i)

/-- The placement invariant, over the whole table. -/
structure SrvcSpace.Placed (bucketSz : Nat) (space : SrvcSpace) : Prop where
  in_bucket : ∀ i, ∀ s ∈ space.bucket i, vsrvcIdBucket s.srvci.hostid = i
  distinct : (space.services.map fun s => (s.srvci.hostid, s.srvci.hash)).Nodup
  bounded : ∀ i, (space.bucket i).length ≤ bucketSz

theorem SrvcSpace.Inv.placed {space : SrvcSpace} (h : space.Inv) :
    space.Placed space.bucket_sz where
  in_bucket := fun i s hs => (h i).ok.placed s hs
  distinct := nodup_allItems fun i => (h i).ok
  bounded := fun i => (h i).ok.bounded

theorem SrvcSpace.Inv.sound {space : SrvcSpace} (h : space.Inv) : space.Sound :=
  fun i => (h i).records

theorem SrvcSpace.inv_init (bucketSz : Nat) : (srvcSpaceInit bucketSz).Inv :=
  fun i => ⟨.nil i, by simp [srvcSpaceInit]⟩

/-- A service info that is announced: distinct addresses, of valid types. -/
structure Announceable (srvci : VsrvcInfo) : Prop where
  wellFormed : srvci.WellFormed
  distinct : DistinctAddrs srvci.used

/-- A stored service is as it was announced, its addresses in the order of their types. -/
structure Vservice.Announced (s : Vservice) (srvci : VsrvcInfo) : Prop where
  pair : srvcPair s.srvci = srvcPair srvci
  nice : s.srvci.nice = srvci.nice
  proto : s.srvci.proto = srvci.proto
  addrs : s.srvci.used.Perm srvci.used

/-- The service as it is stored at the time. -/
structure Vservice.StoredAs (s : Vservice) (srvci : VsrvcInfo) (now : Int) : Prop where
  pair : srvcPair s.srvci = srvcPair srvci
  nice : s.srvci.nice = srvci.nice
  proto : s.srvci.proto = srvci.proto
  addrs : s.srvci.used = putAddrs srvcRule [] srvci.used
  time : s.rcv_ts = now

theorem vserviceInit_stored {item : Vservice} {srvci : VsrvcInfo} (hi : item.srvci.Fitting)
    (hs : srvci.Copyable) (now : Int) :
    ∃ s, vserviceInit item srvci now = .ok s ∧ s.srvci.Sound ∧ s.StoredAs srvci now := by
  obtain ⟨d, hd, hsound, hhash, hhost, hnice, hproto, hused⟩ := vsrvcInfoCopy_ok hi hs
  refine ⟨⟨d, now⟩, by rw [vserviceInit, hd], hsound, ?_, hnice, hproto, hused, rfl⟩
  rw [srvcPair, srvcPair, hhost, hhash]

theorem vserviceInit_announced {item : Vservice} {srvci : VsrvcInfo} (hi : item.srvci.Fitting)
    (hs : Announceable srvci) (ts : Int) :
    ∃ s, vserviceInit item srvci ts = .ok s ∧ s.srvci.Sound ∧ s.Announced srvci := by
  obtain ⟨s, hinit, hsound, hstored⟩ := vserviceInit_stored hi hs.wellFormed.copyable ts
  have hperm : s.srvci.used.Perm srvci.used := hstored.addrs ▸ putAddrs_perm hs.distinct
  exact ⟨s, hinit, hsound, hstored.pair, hstored.nice, hstored.proto, hperm⟩

/-! ## The scan -/

theorem samePair_iff {s : Vservice} {srvci : VsrvcInfo} :
    (vtokenEqual s.srvci.hostid srvci.hostid && vsrvcHashEqual s.srvci.hash srvci.hash) = true ↔
      srvcPair s.srvci = srvcPair srvci := by
  rw [Bool.and_eq_true, vtokenEqual_iff, srvcPair, srvcPair, Prod.mk.injEq]
  exact and_congr_right fun _ => vtokenEqual_iff

theorem findOldest_spec (srvci : VsrvcInfo) (now : Int) (ss : List Vservice) :
    ∀ (start : Nat) (maxPeriod : Int) (dest : Option Nat),
      ScanReport (fun s : Vservice => srvcPair s.srvci = srvcPair srvci) ss start dest
        (findOldest srvci now ss start maxPeriod dest) := by
  induction ss with
  | nil => exact fun start _ dest => .nil _ start dest
  | cons s ss ih =>
    intro start maxPeriod dest
    rw [findOldest]
    split
    · rename_i hpair
      exact .head ss start dest (samePair_iff.mp hpair)
    · rename_i hpair
      have hne : ¬ srvcPair s.srvci = srvcPair srvci := fun h => hpair (samePair_iff.mpr h)
      split
      · exact (ih _ _ _).cons hne (Or.inr rfl)
      · exact (ih _ _ _).cons hne (Or.inl rfl)

/-! ## Adding a service -/

theorem inv_setServices {space : SrvcSpace} (h : space.Inv) {idx : Fin NBUCKETS}
    {l : List Vservice} (hl : ServiceBucket space.bucket_sz idx l) :
    (space.setBucket idx l).Inv := by
  intro i
  show ServiceBucket space.bucket_sz i (if i = idx then l else space.bucket i)
  split
  · rename_i hi
    rwa [hi]
  · exact h i

theorem length_setServices {space : SrvcSpace} {idx : Fin NBUCKETS} {l : List Vservice}
    (hl : l.length = (space.bucket idx).length) :
    (space.setBucket idx l).services.length = space.services.length := by
  apply length_allItems_congr
  intro i
  show (if i = idx then l else space.bucket i).length = _
  split
  · rename_i hi
    rw [hl, hi]
  · rfl

theorem ServiceBucket.set_sound {sz : Nat} {idx : Fin NBUCKETS} {ss : List Vservice}
    (h : ServiceBucket sz idx ss) {t : Vservice} (ht : t.srvci.Sound) (j : Nat) :
    ∀ s ∈ ss.set j t, s.srvci.Sound := by
  intro s hs
  rcases List.mem_or_eq_of_mem_set hs with hs | rfl
  · exact h.records s hs
  · exact ht

/-- The service at a position is overwritten by one of a pair that is that of the position or
in no position. -/
theorem overwriteService_inv {space : SrvcSpace} (h : space.Inv) {srvci : VsrvcInfo}
    (hs : Announceable srvci) {j : Nat} {old : Vservice}
    (hold : (space.bucket (vsrvcIdBucket srvci.hostid))[j]? = some old)
    (hpair : srvcPair old.srvci = srvcPair srvci ∨
      ∀ s ∈ space.bucket (vsrvcIdBucket srvci.hostid), ¬ srvcPair s.srvci = srvcPair srvci)
    (now : Int) :
    ∃ t, overwriteService space (vsrvcIdBucket srvci.hostid) j srvci now =
        .ok (space.setBucket (vsrvcIdBucket srvci.hostid)
          ((space.bucket (vsrvcIdBucket srvci.hostid)).set j t)) ∧
      t.Announced srvci ∧
      (space.setBucket (vsrvcIdBucket srvci.hostid)
        ((space.bucket (vsrvcIdBucket srvci.hostid)).set j t)).Inv := by
  obtain ⟨hj, hget⟩ := List.getElem?_eq_some_iff.mp hold
  have hmem := List.mem_of_getElem? hold
  obtain ⟨t, hinit, hsound, hann⟩ := vserviceInit_announced
    (SrvcSpace.Inv.sound h _ old hmem).toFitting hs now
  refine ⟨t, ?_, hann, inv_setServices h ⟨?_, (h _).set_sound hsound j⟩⟩
  · rw [overwriteService, getSlot_ok hj, hget]
    dsimp only
    rw [hinit]
  · rcases hpair with heq | hnone
    · exact (h _).ok.set hold (hann.pair.trans heq.symm)
    · refine (h _).ok.replace ?_ ?_ j
      · rw [hann.pair]
        rfl
      · rw [hann.pair]
        intro hin
        obtain ⟨s, hsm, heq⟩ := List.mem_map.mp hin
        exact hnone s hsm heq

theorem appendService_inv {space : SrvcSpace} (h : space.Inv) {srvci : VsrvcInfo}
    (hs : Announceable srvci)
    (hnone : ∀ s ∈ space.bucket (vsrvcIdBucket srvci.hostid),
      ¬ srvcPair s.srvci = srvcPair srvci)
    (hroom : (space.bucket (vsrvcIdBucket srvci.hostid)).length < space.bucket_sz) (now : Int) :
    ∃ t, appendService space (vsrvcIdBucket srvci.hostid) srvci now =
        .ok (space.setBucket (vsrvcIdBucket srvci.hostid)
          (space.bucket (vsrvcIdBucket srvci.hostid) ++ [t])) ∧
      t.Announced srvci ∧
      (space.setBucket (vsrvcIdBucket srvci.hostid)
        (space.bucket (vsrvcIdBucket srvci.hostid) ++ [t])).Inv := by
  obtain ⟨t, hinit, hsound, hann⟩ := @vserviceInit_announced ⟨vsrvcInfoAlloc, 0⟩ srvci
    fitting_vsrvcInfoAlloc hs now
  refine ⟨t, ?_, hann, inv_setServices h ⟨(h _).ok.append ?_ ?_ hroom, ?_⟩⟩
  · rw [appendService, hinit]
  · rw [hann.pair]
    rfl
  · rw [hann.pair]
    intro hin
    obtain ⟨s, hsm, heq⟩ := List.mem_map.mp hin
    exact hnone s hsm heq
  · intro s hsm
    rcases List.mem_append.mp hsm with hsm | hsm
    · exact (h _).records s hsm
    · rw [List.mem_singleton.mp hsm]
      exact hsound

/-- What `add_service` does, by what its scan finds. -/
theorem addService_cases {space : SrvcSpace} (h : space.Inv) {srvci : VsrvcInfo}
    (hs : Announceable srvci) (now : Int) :
    (∃ j old t, (space.bucket (vsrvcIdBucket srvci.hostid))[j]? = some old ∧
      srvcPair old.srvci = srvcPair srvci ∧ t.Announced srvci ∧
      addService space srvci now = .ok (space.setBucket (vsrvcIdBucket srvci.hostid)
        ((space.bucket (vsrvcIdBucket srvci.hostid)).set j t)) ∧
      (space.setBucket (vsrvcIdBucket srvci.hostid)
        ((space.bucket (vsrvcIdBucket srvci.hostid)).set j t)).Inv) ∨
    ((∀ s ∈ space.bucket (vsrvcIdBucket srvci.hostid), ¬ srvcPair s.srvci = srvcPair srvci) ∧
      ∃ space', addService space srvci now = .ok space' ∧ space'.Inv ∧
        space'.bucket_sz = space.bucket_sz) := by
  unfold addService
  dsimp only
  rcases findOldest_spec srvci now (space.bucket (vsrvcIdBucket srvci.hostid)) 0 0 none with
    ⟨j, old, hres, hold, hpair⟩ | ⟨hres, hnone, hwant⟩
  · rw [hres]
    dsimp only
    rw [Nat.zero_add]
    obtain ⟨t, ht, hann, hinv⟩ := overwriteService_inv h hs hold (Or.inl hpair) now
    exact Or.inl ⟨j, old, t, hold, hpair, hann, ht, hinv⟩
  · refine Or.inr ⟨hnone, ?_⟩
    generalize findOldest srvci now (space.bucket (vsrvcIdBucket srvci.hostid)) 0 0 none = res
      at hres hwant
    obtain ⟨found, dest⟩ := res
    dsimp only at hres hwant
    subst hres
    dsimp only
    split
    · rename_i hfull
      rcases hwant with rfl | ⟨j, old, rfl, hold⟩
      · exact absurd hfull.1 (by simp)
      · rw [Option.getD_some, Nat.zero_add]
        obtain ⟨t, ht, -, hinv⟩ := overwriteService_inv h hs hold (Or.inr hnone) now
        exact ⟨_, ht, hinv, rfl⟩
    · split
      · rename_i hroom
        obtain ⟨t, ht, -, hinv⟩ := appendService_inv h hs hnone hroom now
        exact ⟨_, ht, hinv, rfl⟩
      · exact ⟨space, rfl, h, rfl⟩

theorem addService_inv {space : SrvcSpace} (h : space.Inv) {srvci : VsrvcInfo}
    (hs : Announceable srvci) (now : Int) :
    ∃ space', addService space srvci now = .ok space' ∧ space'.Inv ∧
      space'.bucket_sz = space.bucket_sz := by
  rcases addService_cases h hs now with ⟨j, old, t, -, -, -, hadd, hinv⟩ | ⟨-, hadd⟩
  · exact ⟨_, hadd, hinv, rfl⟩
  · exact hadd

/-- A stored service is in the bucket of its pair. -/
theorem SrvcSpace.Inv.mem_bucket {space : SrvcSpace} (h : space.Inv) {s : Vservice}
    (hs : s ∈ space.services) {srvci : VsrvcInfo} (hpair : srvcPair s.srvci = srvcPair srvci) :
    s ∈ space.bucket (vsrvcIdBucket srvci.hostid) := by
  obtain ⟨i, hi⟩ := mem_allItems.mp hs
  have hplace : vsrvcIdBucket s.srvci.hostid = i := h.placed.in_bucket i s hi
  have hhost : s.srvci.hostid = srvci.hostid := congrArg Prod.fst hpair
  rwa [← hhost, hplace]

/-- Announcing a stored pair again: the number of services stays, and the service of the pair is
as announced. -/
theorem addService_again {space : SrvcSpace} (h : space.Inv) {srvci : VsrvcInfo}
    (hs : Announceable srvci) (now : Int)
    (hstored : ∃ s ∈ space.services, srvcPair s.srvci = srvcPair srvci) :
    ∃ space', addService space srvci now = .ok space' ∧
      space'.services.length = space.services.length ∧
      (∃ s ∈ space'.services, srvcPair s.srvci = srvcPair srvci) ∧
      ∀ s ∈ space'.services, srvcPair s.srvci = srvcPair srvci → s.Announced srvci := by
  obtain ⟨s, hsm, hpair⟩ := hstored
  have hin := h.mem_bucket hsm hpair
  rcases addService_cases h hs now with ⟨j, old, t, hold, -, hann, hadd, hinv⟩ | ⟨hnone, -⟩
  · obtain ⟨hj, -⟩ := List.getElem?_eq_some_iff.mp hold
    have ht : t ∈ (space.setBucket (vsrvcIdBucket srvci.hostid)
        ((space.bucket (vsrvcIdBucket srvci.hostid)).set j t)).services := by
      refine mem_allItems.mpr ⟨vsrvcIdBucket srvci.hostid, ?_⟩
      rw [SrvcSpace.setBucket_self]
      exact List.mem_set hj t
    refine ⟨_, hadd, length_setServices (List.length_set ..), ⟨t, ht, hann.pair⟩, ?_⟩
    intro u hu hupair
    have heq := List.inj_on_of_nodup_map hinv.placed.distinct hu ht (hupair.trans hann.pair.symm)
    rwa [heq]
  · exact absurd hpair (hnone s hin)

/-! ## Runs -/

/-- One announcement, with the time at which it arrives. -/
def srvcExec (space : SrvcSpace) (op : Int × VsrvcInfo) : Res SrvcSpace :=
  addService space op.2 op.1

/-- Every run of announcements, of well formed records with distinct addresses, succeeds from an
empty space of any size and ends in a placed one. There a stored pair of host and hash can be
announced again: it then is as it was announced last, and no other service comes up or goes. -/
theorem srvcSpace_run_placed (bucketSz : Nat) (ops : List (Int × VsrvcInfo))
    (hops : ∀ op ∈ ops, Announceable op.2) :
    ∃ space, run srvcExec (srvcSpaceInit bucketSz) ops = .ok space ∧ space.Placed bucketSz ∧
      ∀ srvci now, Announceable srvci →
        (∃ s ∈ space.services, srvcPair s.srvci = srvcPair srvci) →
        ∃ space', addService space srvci now = .ok space' ∧
          space'.services.length = space.services.length ∧
          (∃ s ∈ space'.services, srvcPair s.srvci = srvcPair srvci) ∧
          ∀ s ∈ space'.services, srvcPair s.srvci = srvcPair srvci → s.Announced srvci := by
  have hstep : ∀ (s : SrvcSpace) (op : Int × VsrvcInfo), s.Inv ∧ s.bucket_sz = bucketSz →
      Announceable op.2 → ∃ s', srvcExec s op = .ok s' ∧ s'.Inv ∧ s'.bucket_sz = bucketSz := by
    intro s op hs hop
    obtain ⟨s', hadd, hinv, hsz⟩ := addService_inv hs.1 hop op.1
    exact ⟨s', hadd, hinv, hsz.trans hs.2⟩
  obtain ⟨space, hrun, hinv, hsz⟩ := run_total hstep ⟨SrvcSpace.inv_init bucketSz, rfl⟩ hops
  exact ⟨space, hrun, hsz ▸ hinv.placed, fun srvci now => fun hs => addService_again hinv hs now⟩

/-- A service at one address. -/
def oneAddrService (hash hostid : Token) : VsrvcInfo where
  naddrs := 1
  capc := 2
  addrs := [zeroAddr]
  hash := hash
  hostid := hostid
  nice := 5
  proto := 1

theorem oneAddrService_announceable (hash hostid : Token) :
    Announceable (oneAddrService hash hostid) := by
  refine ⟨⟨?_, ?_, ?_, ?_⟩, ?_⟩
  · show (1 : Int) ≤ 1
    decide
  · show (1 : Int) ≤ MAX_ADDRS
    decide
  · show (1 : Int) ≤ 1
    decide
  · intro a ha
    rw [List.mem_singleton.mp ha]
    decide
  · exact List.pairwise_singleton _ _

/-- A service that arrives twice is stored once. -/
theorem srvcSpace_run_placed_twice :
    ∃ space, run srvcExec (srvcSpaceInit 1)
        [(1, oneAddrService (Block.zero 20) (Block.zero 20))] = .ok space ∧
      space.Placed 1 ∧
      ∃ space', addService space (oneAddrService (Block.zero 20) (Block.zero 20)) 9 =
        .ok space' ∧ space'.services.length = space.services.length := by
  have hann := oneAddrService_announceable (Block.zero 20) (Block.zero 20)
  obtain ⟨space, hrun, hplaced, hagain⟩ := srvcSpace_run_placed 1
    [(1, oneAddrService (Block.zero 20) (Block.zero 20))]
    fun op hop => by rwa [List.mem_singleton.mp hop]
  have hspace : space = (srvcSpaceInit 1).setBucket (vsrvcIdBucket (Block.zero 20))
      [⟨{ oneAddrService (Block.zero 20) (Block.zero 20) with addrs := [zeroAddr, zeroAddr] },
        1⟩] := by
    have hok : run srvcExec (srvcSpaceInit 1)
        [(1, oneAddrService (Block.zero 20) (Block.zero 20))] = .ok _ := rfl
    rw [hok] at hrun
    exact (Except.ok.inj hrun).symm
  have hstored : ∃ s ∈ space.services, srvcPair s.srvci =
      srvcPair (oneAddrService (Block.zero 20) (Block.zero 20)) := by
    refine ⟨⟨{ oneAddrService (Block.zero 20) (Block.zero 20) with addrs := [zeroAddr, zeroAddr] },
      1⟩, mem_allItems.mpr ⟨vsrvcIdBucket (Block.zero 20), ?_⟩, rfl⟩
    rw [hspace, SrvcSpace.setBucket_self]
    exact List.mem_singleton_self _
  obtain ⟨space', hadd, hlen, -⟩ := hagain _ 9 hann hstored
  exact ⟨space, hrun, hplaced, space', hadd, hlen⟩

end Vdht.Route
