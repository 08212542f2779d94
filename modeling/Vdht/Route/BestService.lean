import Vdht.Lib.Least
import Vdht.Route.Announced

/-!
# The service that is reported

`get_service` goes through all buckets with one choice and one bound, which starts at 100, and copies
its choice after every bucket from the first choice on. Below that bound the last copy is the first of
the least nice services of the hash.

A copy adds the addresses one by one, each behind those whose type is not greater. A stored record in
the order of its types is copied as it is. `vsrvcInfo_add_addr` gives a known address a new type in
its place, so a record that is announced with an address twice can be stored out of order, and then it
is reported in another order.
-/

namespace Vdht.Route

open NodeId Lib

/-- A service that is announced or a table that is emptied. -/
inductive SrvcSpaceOp where
  | add (now : Int) (srvci : VsrvcInfo)
  | clear

/-- An operation of the space of services: an announcement that is stored, or the space emptied. -/
def srvcSpaceExec (space : SrvcSpace) : SrvcSpaceOp → Res SrvcSpace
  | .add now srvci => addService space srvci now
  | .clear => .ok (srvcSpaceClear space)

/-- The services of the hash, in the order of the scan. -/
def hashServices (hash : Token) (ss : List Vservice) : List VsrvcInfo :=
  (ss.map Vservice.srvci).filter fun s => s.hash = hash

/-- The choice of the scan among the services of the hash. -/
def leastNice (l : List VsrvcInfo) : Option VsrvcInfo := leastBelow (fun s => s.nice.toInt) 100 l

/-- The nice that an entry has to reach to be chosen: that of the choice so far, and 100 before
there is one. -/
def niceBound (choice : Option VsrvcInfo) : Int := choice.elim 100 fun s => s.nice.toInt

/-- Two records of one service that agree in everything but the slots of the block behind their
addresses. -/
structure SameService (d s : VsrvcInfo) : Prop where
  hash : d.hash = s.hash
  hostid : d.hostid = s.hostid
  nice : d.nice = s.nice
  proto : d.proto = s.proto
  naddrs : d.naddrs = s.naddrs
  addrs : d.used = s.used

/-- A copy of a stored record: the addresses are put in the order of their types. -/
structure SrvcCopyOf (d s : VsrvcInfo) : Prop where
  hash : d.hash = s.hash
  hostid : d.hostid = s.hostid
  nice : d.nice = s.nice
  proto : d.proto = s.proto
  naddrs : d.naddrs = s.naddrs
  addrs : d.used = putAddrs srvcRule [] s.used

/-! ## Stored records -/

theorem kept_copy {dest s : VsrvcInfo} (hd : dest.Fitting) (hs : s.Kept) :
    ∃ d, vsrvcInfoCopy dest s = .ok (d, 0) ∧ d.Fitting ∧ SrvcCopyOf d s := by
  obtain ⟨d, hcopy, hsound, hhash, hhost, hnice, hproto, hused⟩ := vsrvcInfoCopy_ok hd hs.copyable
  refine ⟨d, hcopy, hsound.toFitting, hhash, hhost, hnice, hproto, ?_, hused⟩
  have hperm : d.used.Perm s.used := hused ▸ putAddrs_perm hs.distinct
  rw [← hsound.length_used, hperm.length_eq, hs.sound.length_used]

/-- A copy has the same list exactly when the record is in the order of its types. -/
theorem SrvcCopyOf.same_iff {d s : VsrvcInfo} (h : SrvcCopyOf d s) (hs : s.Kept) :
    SameService d s ↔ SortedAddrs srvcRule.key s.used := by
  constructor
  · intro hsame
    rw [← hsame.addrs, h.addrs]
    exact sortedAddrs_putAddrs hs.distinct .nil
  · intro hsorted
    exact ⟨h.hash, h.hostid, h.nice, h.proto, h.naddrs,
      h.addrs.trans (putAddrs_sorted hs.distinct hsorted)⟩

/-- A record that a copy leaves as it is. -/
structure InOrder (s : VsrvcInfo) : Prop extends s.Kept where
  sorted : SortedAddrs srvcRule.key s.used

theorem copy_inOrder {dest srvci : VsrvcInfo} (hd : dest.Fitting) (hs : srvci.Copyable)
    (hdis : DistinctAddrs srvci.used) :
    ∃ d, vsrvcInfoCopy dest srvci = .ok (d, 0) ∧ InOrder d := by
  obtain ⟨d, hcopy, hsound, -, -, -, -, hused⟩ := vsrvcInfoCopy_ok hd hs
  have hperm : d.used.Perm srvci.used := hused ▸ putAddrs_perm hdis
  refine ⟨d, hcopy, ⟨hsound, (distinctAddrs_perm hperm).mpr hdis, fun a ha => ?_⟩, ?_⟩
  · exact hs.types a (hperm.mem_iff.mp ha)
  · rw [hused]
    exact sortedAddrs_putAddrs hdis .nil

theorem InOrder.copy {dest s : VsrvcInfo} (hd : dest.Fitting) (hs : InOrder s) :
    ∃ d, vsrvcInfoCopy dest s = .ok (d, 0) ∧ d.Fitting ∧ SameService d s := by
  obtain ⟨d, hcopy, hfit, hof⟩ := kept_copy hd hs.toKept
  exact ⟨d, hcopy, hfit, (hof.same_iff hs.toKept).mpr hs.sorted⟩

/-- Whatever is announced, what is stored is a copy. -/
theorem srvcSpaceExec_kept {space space' : SrvcSpace} (h : ∀ i, ∀ s ∈ space.bucket i, s.srvci.Kept)
    {op : SrvcSpaceOp} (hop : srvcSpaceExec space op = .ok space') :
    ∀ i, ∀ s ∈ space'.bucket i, s.srvci.Kept := by
  cases op with
  | add now srvci =>
    exact addService_keeps (fun s hs => hs.sound.toFitting)
      (fun _ _ _ hd hcopy => vsrvcInfoCopy_kept hd hcopy) h hop
  | clear =>
    cases hop
    exact fun i s hs => absurd hs List.not_mem_nil

theorem srvcSpace_run_kept {bucketSz : Nat} {ops : List SrvcSpaceOp} {space : SrvcSpace}
    (hrun : run srvcSpaceExec (srvcSpaceInit bucketSz) ops = .ok space) :
    ∀ i, ∀ s ∈ space.bucket i, s.srvci.Kept := by
  have hstep : ∀ (t : SrvcSpace) (op : SrvcSpaceOp) (t' : SrvcSpace),
      (∀ i, ∀ s ∈ t.bucket i, s.srvci.Kept) → True → srvcSpaceExec t op = .ok t' →
        ∀ i, ∀ s ∈ t'.bucket i, s.srvci.Kept :=
    fun _ _ _ h _ hop => srvcSpaceExec_kept h hop
  exact run_invariant hstep (fun i s hs => absurd hs List.not_mem_nil) (fun _ _ => trivial) hrun

/-! ## The scan -/

theorem mem_hashServices {hash : Token} {ss : List Vservice} {s : VsrvcInfo} :
    s ∈ hashServices hash ss ↔ (∃ t ∈ ss, t.srvci = s) ∧ s.hash = hash := by
  rw [hashServices, List.mem_filter, List.mem_map, decide_eq_true_iff]

theorem hashServices_cons (hash : Token) (s : Vservice) (ss : List Vservice) :
    hashServices hash (s :: ss) =
      if s.srvci.hash = hash then s.srvci :: hashServices hash ss else hashServices hash ss := by
  rw [hashServices, List.map_cons, List.filter_cons]
  simp only [decide_eq_true_iff]
  rfl

theorem hashServices_append (hash : Token) (ss ts : List Vservice) :
    hashServices hash (ss ++ ts) = hashServices hash ss ++ hashServices hash ts := by
  rw [hashServices, List.map_append, List.filter_append]
  rfl

/-- The choice and the bound after the services of a bucket, behind the candidates before it. -/
theorem pickService_eq (hash : Token) (pre : List VsrvcInfo) (ss : List Vservice) :
    pickService hash ss (leastNice pre) (niceBound (leastNice pre)) =
      (leastNice (pre ++ hashServices hash ss), niceBound (leastNice (pre ++ hashServices hash ss))) := by
  induction ss generalizing pre with
  | nil =>
    rw [hashServices, List.map_nil, List.filter_nil, List.append_nil, pickService]
  | cons s ss ih =>
    rw [pickService, hashServices_cons]
    by_cases hhash : s.srvci.hash = hash
    · have hchoice : leastNice (pre ++ [s.srvci]) =
          if s.srvci.nice.toInt < niceBound (leastNice pre) then some s.srvci else leastNice pre :=
        leastBelow_concat _ _ _ _
      have hnext := ih (pre ++ [s.srvci])
      rw [hchoice, List.append_assoc, List.singleton_append] at hnext
      rw [if_pos hhash, ← hnext]
      by_cases hlt : s.srvci.nice.toInt < niceBound (leastNice pre)
      · rw [if_pos ⟨vtokenEqual_iff.mpr hhash, hlt⟩, if_pos hlt]
        rfl
      · rw [if_neg fun h => hlt h.2, if_neg hlt]
    · rw [if_neg fun h => hhash (vtokenEqual_iff.mp h.1), if_neg hhash]
      exact ih pre

/-- The record of the caller and the result, for a choice. -/
inductive Reported : Option VsrvcInfo → VsrvcInfo → Bool → Prop where
  | nothing (d : VsrvcInfo) : Reported none d false
  | copied {s d : VsrvcInfo} (h : SrvcCopyOf d s) : Reported (some s) d true

theorem getServiceLoop_reports {space : SrvcSpace} {hash : Token}
    (h : ∀ i, ∀ s ∈ space.bucket i, s.srvci.Kept) (is : List (Fin NBUCKETS))
    {pre : List VsrvcInfo} (hpre : ∀ s ∈ pre, s.Kept) {srvci : VsrvcInfo} {found : Bool}
    (hfit : srvci.Fitting) (hrep : Reported (leastNice pre) srvci found) :
    ∃ d found', getServiceLoop space hash is (leastNice pre) (niceBound (leastNice pre)) srvci
        found = .ok (d, found') ∧
      Reported (leastNice (pre ++ hashServices hash (is.flatMap space.bucket))) d found' := by
  induction is generalizing pre srvci found with
  | nil =>
    rw [List.flatMap_nil, hashServices, List.map_nil, List.filter_nil, List.append_nil]
    exact ⟨srvci, found, rfl, hrep⟩
  | cons i is ih =>
    have hnext : ∀ s ∈ pre ++ hashServices hash (space.bucket i), s.Kept := by
      intro s hs
      rcases List.mem_append.mp hs with hs | hs
      · exact hpre s hs
      · obtain ⟨⟨t, ht, rfl⟩, -⟩ := mem_hashServices.mp hs
        exact h i t ht
    rw [getServiceLoop, pickService_eq, List.flatMap_cons, hashServices_append, ← List.append_assoc]
    have hrest := @ih _ hnext
    cases hchoice : leastNice (pre ++ hashServices hash (space.bucket i)) with
    | none =>
      have hnone : leastNice pre = none :=
        leastBelow_eq_none.mpr fun s hs =>
          leastBelow_eq_none.mp hchoice s (List.mem_append_left _ hs)
      rw [hchoice] at hrest
      exact hrest hfit (hnone ▸ hrep)
    | some best =>
      rw [hchoice] at hrest
      obtain ⟨d, hcopy, hd, hof⟩ := kept_copy hfit
        (hnext best (firstLeast_of_leastBelow hchoice).1.mem)
      dsimp only
      rw [hcopy]
      exact hrest hd (.copied hof)

theorem getService_reports {space : SrvcSpace} {hash : Token}
    (h : ∀ i, ∀ s ∈ space.bucket i, s.srvci.Kept) {dest : VsrvcInfo} (hdest : dest.Fitting) :
    ∃ d found, getService space hash dest = .ok (d, found) ∧
      Reported (leastNice (hashServices hash space.services)) d found :=
  @getServiceLoop_reports space hash h (List.finRange NBUCKETS) [] (by simp) dest false hdest
    (.nothing dest)

/-! ## Runs -/

/-- What `get_service` is to do: a service is reported if and only if one of the hash is stored, and
then the record holds the first of the least nice ones, with its protocol and its list of addresses. -/
def ReportsLeast (space : SrvcSpace) (hash : Token) (dest : VsrvcInfo) : Prop :=
  ∃ d found, getService space hash dest = .ok (d, found) ∧
    (found = true ↔ ∃ s ∈ space.services, s.srvci.hash = hash) ∧
    (found = true → d.hash = hash ∧
      ∃ s, FirstLeast (fun s => s.nice.toInt) (hashServices hash space.services) s ∧
        SameService d s)

section Reports

variable {space : SrvcSpace} (hkept : ∀ i, ∀ s ∈ space.bucket i, s.srvci.Kept)
  (hnice : ∀ s ∈ space.services, s.srvci.nice.toInt < 100) {hash : Token} {dest : VsrvcInfo}

include hkept hnice in
theorem hashServices_stored {s : VsrvcInfo} (hs : s ∈ hashServices hash space.services) :
    s.Kept ∧ s.nice.toInt < 100 ∧ s.hash = hash := by
  obtain ⟨⟨t, ht, rfl⟩, hhash⟩ := mem_hashServices.mp hs
  obtain ⟨i, hi⟩ := mem_allItems.mp ht
  exact ⟨hkept i t hi, hnice t ht, hhash⟩

include hkept hnice in
theorem sorted_of_reportsLeast (hdest : dest.Fitting) (h : ReportsLeast space hash dest)
    {s : VsrvcInfo}
    (hs : FirstLeast (fun s => s.nice.toInt) (hashServices hash space.services) s) :
    SortedAddrs srvcRule.key s.used := by
  obtain ⟨hstored, hbelow, -⟩ := hashServices_stored hkept hnice hs.mem
  obtain ⟨d, found, hget, hiff, hleast⟩ := h
  obtain ⟨⟨t, ht, hts⟩, hhash⟩ := mem_hashServices.mp hs.mem
  obtain ⟨-, s', hs', hsame⟩ := hleast (hiff.mpr ⟨t, ht, hts ▸ hhash⟩)
  obtain rfl := hs.unique hs'
  -- the record that was reported is a copy of the service
  obtain ⟨d', found', hget', hrep⟩ := @getService_reports space hash hkept dest hdest
  cases hget.symm.trans hget'
  cases hchoice : leastNice (hashServices hash space.services) with
  | none => exact absurd hbelow (not_lt_of_ge (leastBelow_eq_none.mp hchoice s hs.mem))
  | some best =>
    rw [hchoice] at hrep
    cases hrep with
    | copied hof =>
      obtain rfl := hs.unique (firstLeast_of_leastBelow hchoice).1
      exact (hof.same_iff hstored).mp hsame

include hkept hnice in
theorem reportsLeast_of_sorted (hdest : dest.Fitting)
    (hsorted : ∀ s, FirstLeast (fun s => s.nice.toInt) (hashServices hash space.services) s →
      SortedAddrs srvcRule.key s.used) : ReportsLeast space hash dest := by
  obtain ⟨d, found, hget, hrep⟩ := @getService_reports space hash hkept dest hdest
  refine ⟨d, found, hget, ?_⟩
  cases hchoice : leastNice (hashServices hash space.services) with
  | none =>
    rw [hchoice] at hrep
    cases hrep
    refine ⟨⟨fun h => absurd h Bool.false_ne_true, ?_⟩, fun h => absurd h Bool.false_ne_true⟩
    rintro ⟨s, hs, hhash⟩
    have hmem := mem_hashServices.mpr ⟨⟨s, hs, rfl⟩, hhash⟩
    exact absurd (hnice s hs) (not_lt_of_ge (leastBelow_eq_none.mp hchoice _ hmem))
  | some best =>
    rw [hchoice] at hrep
    cases hrep with
    | copied hof =>
      obtain ⟨hleast, -⟩ := firstLeast_of_leastBelow hchoice
      obtain ⟨hbest, -, hhash⟩ := hashServices_stored hkept hnice hleast.mem
      obtain ⟨⟨s, hs, hsbest⟩, -⟩ := mem_hashServices.mp hleast.mem
      refine ⟨⟨fun _ => ⟨s, hs, hsbest ▸ hhash⟩, fun _ => rfl⟩, fun _ => ⟨hof.hash.trans hhash, ?_⟩⟩
      exact ⟨best, hleast, (hof.same_iff hbest).mpr (hsorted best hleast)⟩

end Reports

/-- In every space that any announcements lead to, if all stored services are below the bound: the
first of the least nice services of the hash is reported as it is stored, whatever the record of the
caller held, if and only if its addresses are in the order of their types. -/
theorem srvcSpace_reports_least_iff {bucketSz : Nat} {ops : List SrvcSpaceOp} {space : SrvcSpace}
    (hrun : run srvcSpaceExec (srvcSpaceInit bucketSz) ops = .ok space)
    (hnice : ∀ s ∈ space.services, s.srvci.nice.toInt < 100) (hash : Token) :
    (∀ dest, dest.Fitting → ReportsLeast space hash dest) ↔
      ∀ s, FirstLeast (fun s => s.nice.toInt) (hashServices hash space.services) s →
        SortedAddrs srvcRule.key s.used := by
  have hkept := srvcSpace_run_kept hrun
  constructor
  · intro hreports s hs
    exact sorted_of_reportsLeast hkept hnice fitting_vsrvcInfoRelax
      (hreports vsrvcInfoRelax fitting_vsrvcInfoRelax) hs
  · intro hsorted dest hdest
    exact reportsLeast_of_sorted hkept hnice hdest hsorted

/-- A table with one service. -/
def oneService (srvci : VsrvcInfo) (ts : Int) : SrvcSpace where
  bucket_sz := 1
  bucket i := if i = vsrvcIdBucket srvci.hostid then [⟨srvci, ts⟩] else []

theorem oneService_services (srvci : VsrvcInfo) (ts : Int) :
    (oneService srvci ts).services = [⟨srvci, ts⟩] := allItems_single _ _

/-- A service that is announced again after the table was emptied is reported. -/
theorem srvcSpace_reports_least_iff_again :
    ∃ space, run srvcSpaceExec (srvcSpaceInit 1)
        [.add 1 (oneAddrService (Block.zero 20) (Block.zero 20)), .clear,
          .add 2 (oneAddrService (Block.zero 20) (Block.zero 20))] = .ok space ∧
      ReportsLeast space (Block.zero 20) vsrvcInfoRelax := by
  have hok : run srvcSpaceExec (srvcSpaceInit 1)
      [.add 1 (oneAddrService (Block.zero 20) (Block.zero 20)), .clear,
        .add 2 (oneAddrService (Block.zero 20) (Block.zero 20))] =
      .ok (oneService { oneAddrService (Block.zero 20) (Block.zero 20) with
        addrs := [zeroAddr, zeroAddr] } 2) := rfl
  refine ⟨_, hok, (srvcSpace_reports_least_iff hok ?_ (Block.zero 20)).mpr ?_ _
    fitting_vsrvcInfoRelax⟩
  · intro s hs
    rw [oneService_services] at hs
    rw [List.mem_singleton.mp hs]
    decide
  · intro s hs
    obtain ⟨⟨t, ht, rfl⟩, -⟩ := mem_hashServices.mp hs.mem
    rw [oneService_services] at ht
    rw [List.mem_singleton.mp ht]
    exact List.pairwise_singleton _ _

/-! ## An address that is announced twice -/

/-- An address that has a given port and a given type, for the input at which the order of the
addresses changes. -/
def retypedAddr (port : UInt16) (type : UInt32) : VsockaddrIn := ⟨⟨2, port, 1, Block.zero 8⟩, type⟩

/-- The first address comes again at the end, with a greater type. -/
def retypedService : VsrvcInfo :=
  { oneAddrService (Block.zero 20) (Block.zero 20) with
    naddrs := 3
    capc := 4
    addrs := [retypedAddr 1 VSOCKADDR_LOCAL, retypedAddr 2 VSOCKADDR_UPNP,
      retypedAddr 1 VSOCKADDR_RELAY, zeroAddr] }

/-- It is stored with the greater type in its old place, and reported behind the other one. -/
theorem reported_in_another_order :
    ∃ space, run srvcSpaceExec (srvcSpaceInit 1) [.add 1 retypedService] = .ok space ∧
      (∀ s ∈ space.services, s.srvci.nice.toInt < 100) ∧
      ¬ ReportsLeast space (Block.zero 20) vsrvcInfoRelax := by
  have hok : run srvcSpaceExec (srvcSpaceInit 1) [.add 1 retypedService] =
      .ok (oneService { retypedService with
        naddrs := 2
        addrs := [retypedAddr 1 VSOCKADDR_RELAY, retypedAddr 2 VSOCKADDR_UPNP, zeroAddr,
          zeroAddr] } 1) := rfl
  have hnice : ∀ s ∈ (oneService { retypedService with
      naddrs := 2
      addrs := [retypedAddr 1 VSOCKADDR_RELAY, retypedAddr 2 VSOCKADDR_UPNP, zeroAddr,
        zeroAddr] } 1).services,
      s.srvci.nice.toInt < 100 := by
    intro s hs
    rw [oneService_services] at hs
    rw [List.mem_singleton.mp hs]
    decide
  refine ⟨_, hok, hnice, fun hreports => ?_⟩
  have hsorted := sorted_of_reportsLeast (srvcSpace_run_kept hok) hnice fitting_vsrvcInfoRelax
    hreports ⟨[], [], rfl, by simp, by simp⟩
  have hle := List.rel_of_pairwise_cons hsorted (List.mem_singleton_self _)
  revert hle
  decide

end Vdht.Route
