import Vdht.NodeId.SrvcInfo
import Vdht.NodeId.Token

/-!
# The service routing space

`vroute_srvc.c`: the services announced by other nodes, in buckets by the id of their host. The
services of a bucket are a list, the operations of `varray` being list operations.
-/

namespace Vdht.Route

open NodeId Lib

/-- `vservice`: the record of a service that was announced, and the time at which it was last
received. -/
structure Vservice where
  srvci : VsrvcInfo
  rcv_ts : Int

/-- `vroute_srvc_space`: the buckets of services that were announced to this node, each of a bounded
size. -/
structure SrvcSpace where
  bucket_sz : Nat
  bucket : Fin NBUCKETS → List Vservice

/-- `_vroute_srvc_space_init`: empty buckets of a size. -/
def srvcSpaceInit (bucketSz : Nat) : SrvcSpace where
  bucket_sz := bucketSz
  bucket := fun _ => []

/-- `vsrvcId_bucket`: the bucket of a service by the id of its host, from the sum of its bytes, each
of them reduced first. -/
def vsrvcIdBucket (id : Token) : Fin NBUCKETS :=
  ⟨(id.data.map fun b => b.toNat % VTOKEN_BITLEN).sum % VTOKEN_BITLEN, Nat.mod_lt _ (by decide)⟩

/-- `vservice_init`; the result of the copy is ignored. -/
def vserviceInit (item : Vservice) (srvci : VsrvcInfo) (ts : Int) : Res Vservice :=
  match vsrvcInfoCopy item.srvci srvci with
  | .error e => .error e
  | .ok (d, _) => .ok ⟨d, ts⟩

/-- The age of a service, an `int`. -/
def serviceAge (now : Int) (item : Vservice) : Int := (Int32.ofInt (now - item.rcv_ts)).toInt

/-- `_aux_srvc_add_service_cb` over the services from position `i` on: whether the service was
found, and the position of the service to overwrite. -/
def findOldest (srvci : VsrvcInfo) (now : Int) :
    List Vservice → Nat → Int → Option Nat → Bool × Option Nat
  | [], _, _, dest => (false, dest)
  | s :: ss, i, maxPeriod, dest =>
    if vtokenEqual s.srvci.hostid srvci.hostid && vsrvcHashEqual s.srvci.hash srvci.hash then
      (true, some i)
    else if serviceAge now s > maxPeriod then
      findOldest srvci now ss (i + 1) (serviceAge now s) (some i)
    else findOldest srvci now ss (i + 1) maxPeriod dest

/-- The space with one of its buckets replaced. -/
def SrvcSpace.setBucket (space : SrvcSpace) (idx : Fin NBUCKETS) (l : List Vservice) :
    SrvcSpace :=
  { space with bucket := fun i => if i = idx then l else space.bucket i }

/-- The item at an index is initialised anew with a record that was announced, which copies it over
the old one. -/
def overwriteService (space : SrvcSpace) (idx : Fin NBUCKETS) (i : Nat) (srvci : VsrvcInfo)
    (now : Int) : Res SrvcSpace :=
  match getSlot (space.bucket idx) i with
  | .error e => .error e
  | .ok item =>
    match vserviceInit item srvci now with
    | .error e => .error e
    | .ok item => .ok (space.setBucket idx ((space.bucket idx).set i item))

/-- A bucket gets one more item, freshly allocated, for a record that was announced. -/
def appendService (space : SrvcSpace) (idx : Fin NBUCKETS) (srvci : VsrvcInfo) (now : Int) :
    Res SrvcSpace :=
  match vserviceInit ⟨vsrvcInfoAlloc, 0⟩ srvci now with
  | .error e => .error e
  | .ok item => .ok (space.setBucket idx (space.bucket idx ++ [item]))

/-- `_vroute_srvc_space_add_service`: an announcement overwrites the one of the same host and hash.
Else it takes a free place of its bucket, and in a full one the place of the service that was
received first. -/
def addService (space : SrvcSpace) (srvci : VsrvcInfo) (now : Int) : Res SrvcSpace :=
  let idx := vsrvcIdBucket srvci.hostid
  let services := space.bucket idx
  match findOldest srvci now services 0 0 none with
  | (true, some i) => overwriteService space idx i srvci now
  | (_, dest) =>
    if dest.isSome ∧ services.length ≥ space.bucket_sz then
      overwriteService space idx (dest.getD 0) srvci now
    else if services.length < space.bucket_sz then appendService space idx srvci now
    else .ok space

/-- `_aux_srvc_get_service_cb` over the services of a bucket. -/
def pickService (hash : Token) : List Vservice → Option VsrvcInfo → Int → Option VsrvcInfo × Int
  | [], dest, minNice => (dest, minNice)
  | s :: ss, dest, minNice =>
    if vsrvcHashEqual s.srvci.hash hash ∧ s.srvci.nice.toInt < minNice then
      pickService hash ss (some s.srvci) s.srvci.nice.toInt
    else pickService hash ss dest minNice

/-- The loop over the buckets; the best service so far is copied after every bucket. -/
def getServiceLoop (space : SrvcSpace) (hash : Token) :
    List (Fin NBUCKETS) → Option VsrvcInfo → Int → VsrvcInfo → Bool → Res (VsrvcInfo × Bool)
  | [], _, _, srvci, found => .ok (srvci, found)
  | i :: is, dest, minNice, srvci, found =>
    match pickService hash (space.bucket i) dest minNice with
    | (none, minNice) => getServiceLoop space hash is none minNice srvci found
    | (some best, minNice) =>
      match vsrvcInfoCopy srvci best with
      | .error e => .error e
      | .ok (srvci, _) => getServiceLoop space hash is (some best) minNice srvci true

/-- The record after the call and whether a service was found. -/
def getService (space : SrvcSpace) (hash : Token) (srvci : VsrvcInfo) :
    Res (VsrvcInfo × Bool) :=
  getServiceLoop space hash (List.finRange NBUCKETS) none 100 srvci false

/-- `_vroute_srvc_space_clear`: all buckets are emptied. -/
def srvcSpaceClear (space : SrvcSpace) : SrvcSpace := { space with bucket := fun _ => [] }

/-! ## Stored services -/

/-- Every record of the space lies in a block of the right size. -/
def SrvcSpace.Sound (space : SrvcSpace) : Prop := ∀ i, ∀ s ∈ space.bucket i, s.srvci.Sound

theorem findOldest_bound (srvci : VsrvcInfo) (now : Int) (ss : List Vservice) :
    ∀ (start : Nat) (maxPeriod : Int) (dest : Option Nat) (found : Bool) (i : Nat),
      findOldest srvci now ss start maxPeriod dest = (found, some i) →
        dest = some i ∨ i < start + ss.length := by
  induction ss with
  | nil =>
    intro start maxPeriod dest found i h
    rw [findOldest] at h
    cases h
    exact Or.inl rfl
  | cons s ss ih =>
    intro start maxPeriod dest found i h
    unfold findOldest at h
    rw [List.length_cons]
    split at h
    · cases h
      exact Or.inr (by omega)
    · split at h
      · rcases ih _ _ _ _ _ h with h | h
        · cases h
          exact Or.inr (by omega)
        · exact Or.inr (by omega)
      · rcases ih _ _ _ _ _ h with h | h
        · exact Or.inl h
        · exact Or.inr (by omega)

@[simp] theorem SrvcSpace.setBucket_self (space : SrvcSpace) (idx : Fin NBUCKETS)
    (l : List Vservice) : (space.setBucket idx l).bucket idx = l := if_pos rfl

theorem SrvcSpace.holds_set {space : SrvcSpace} {P : VsrvcInfo → Prop}
    (h : ∀ i, ∀ s ∈ space.bucket i, P s.srvci) {idx : Fin NBUCKETS} {l : List Vservice}
    (hl : ∀ s ∈ l, P s.srvci) : ∀ i, ∀ s ∈ (space.setBucket idx l).bucket i, P s.srvci := by
  intro i s hs
  by_cases hi : i = idx
  · exact hl s (by simpa [SrvcSpace.setBucket, hi] using hs)
  · exact h i s (by simpa [SrvcSpace.setBucket, hi] using hs)

theorem fitting_vsrvcInfoAlloc : vsrvcInfoAlloc.Fitting := vsrvcInfoAlloc_sound.toFitting

section

variable {P : VsrvcInfo → Prop} {space : SrvcSpace} {srvci : VsrvcInfo}
  (hfit : ∀ s, P s → s.Fitting)
  (hcopy : ∀ dest : VsrvcInfo, dest.Fitting → ∃ d, vsrvcInfoCopy dest srvci = .ok (d, 0) ∧ P d)

include hcopy in
theorem vserviceInit_holds {item : Vservice} (hi : item.srvci.Fitting) (ts : Int) :
    ∃ s, vserviceInit item srvci ts = .ok s ∧ P s.srvci := by
  obtain ⟨d, hd, hP⟩ := hcopy item.srvci hi
  exact ⟨⟨d, ts⟩, by rw [vserviceInit, hd], hP⟩

include hfit hcopy in
theorem overwriteService_holds (h : ∀ i, ∀ s ∈ space.bucket i, P s.srvci) {idx : Fin NBUCKETS}
    {i : Nat} (hi : i < (space.bucket idx).length) (now : Int) :
    ∃ s, overwriteService space idx i srvci now = .ok s ∧
      ∀ i, ∀ t ∈ s.bucket i, P t.srvci := by
  have hitem := hfit _ (h idx _ (List.getElem_mem hi))
  obtain ⟨s, hinit, hP⟩ := vserviceInit_holds hcopy hitem now
  unfold overwriteService
  rw [getSlot_ok hi]
  dsimp only
  rw [hinit]
  refine ⟨_, rfl, SrvcSpace.holds_set h ?_⟩
  intro t ht
  rcases List.mem_or_eq_of_mem_set ht with ht | rfl
  · exact h idx t ht
  · exact hP

include hfit hcopy in
/-- Adding a service keeps what holds of every stored record and of every copy of the service. -/
theorem addService_holds (h : ∀ i, ∀ s ∈ space.bucket i, P s.srvci) (now : Int) :
    ∃ s, addService space srvci now = .ok s ∧ ∀ i, ∀ t ∈ s.bucket i, P t.srvci := by
  unfold addService
  dsimp only
  generalize vsrvcIdBucket srvci.hostid = idx
  have hbound := findOldest_bound srvci now (space.bucket idx) 0 0 none
  split
  · rename_i i hfind
    have hi := hbound _ _ hfind
    exact overwriteService_holds hfit hcopy h (by simpa using hi) now
  · rename_i found dest _ hfind
    split
    · rename_i hfull
      cases dest with
      | none => exact absurd hfull.1 (by simp)
      | some i =>
        have hi := hbound _ _ hfind
        exact overwriteService_holds hfit hcopy h (by simpa using hi) now
    · split
      · obtain ⟨s, hinit, hP⟩ := @vserviceInit_holds P srvci hcopy ⟨vsrvcInfoAlloc, 0⟩
          fitting_vsrvcInfoAlloc now
        unfold appendService
        rw [hinit]
        refine ⟨_, rfl, SrvcSpace.holds_set h ?_⟩
        intro t ht
        rcases List.mem_append.mp ht with ht | ht
        · exact h idx t ht
        · rw [List.mem_singleton.mp ht]
          exact hP
      · exact ⟨space, rfl, h⟩

end

section

variable {P : VsrvcInfo → Prop} {space s : SrvcSpace} {srvci : VsrvcInfo}
  (hfit : ∀ s, P s → s.Fitting)
  (hcopied : ∀ (dest d : VsrvcInfo) (r : Int), dest.Fitting →
    vsrvcInfoCopy dest srvci = .ok (d, r) → P d)

include hcopied in
theorem vserviceInit_keeps {item item' : Vservice} (hi : item.srvci.Fitting) {ts : Int}
    (h : vserviceInit item srvci ts = .ok item') : P item'.srvci := by
  unfold vserviceInit at h
  split at h
  · cases h
  · rename_i d r hd
    cases h
    exact hcopied _ _ _ hi hd

include hfit hcopied in
theorem overwriteService_keeps (h : ∀ i, ∀ t ∈ space.bucket i, P t.srvci) {idx : Fin NBUCKETS}
    {i : Nat} {now : Int} (hs : overwriteService space idx i srvci now = .ok s) :
    ∀ i, ∀ t ∈ s.bucket i, P t.srvci := by
  unfold overwriteService getSlot at hs
  cases hitem : (space.bucket idx)[i]? with
  | none =>
    rw [hitem] at hs
    cases hs
  | some item =>
    rw [hitem] at hs
    dsimp only at hs
    split at hs
    · cases hs
    · rename_i item' hinit
      cases hs
      have hfitting := hfit _ (h idx item (List.mem_of_getElem? hitem))
      refine SrvcSpace.holds_set h fun t ht => ?_
      rcases List.mem_or_eq_of_mem_set ht with ht | rfl
      · exact h idx t ht
      · exact vserviceInit_keeps hcopied hfitting hinit

include hfit hcopied in
/-- Whatever record is announced, a space keeps what holds of every copy. -/
theorem addService_keeps (h : ∀ i, ∀ t ∈ space.bucket i, P t.srvci) {now : Int}
    (hs : addService space srvci now = .ok s) : ∀ i, ∀ t ∈ s.bucket i, P t.srvci := by
  unfold addService at hs
  dsimp only at hs
  split at hs
  · exact overwriteService_keeps hfit hcopied h hs
  · split at hs
    · exact overwriteService_keeps hfit hcopied h hs
    · split at hs
      · unfold appendService at hs
        split at hs
        · cases hs
        · rename_i item hinit
          cases hs
          refine SrvcSpace.holds_set h fun t ht => ?_
          rcases List.mem_append.mp ht with ht | ht
          · exact h _ t ht
          · rw [List.mem_singleton.mp ht]
            exact vserviceInit_keeps hcopied fitting_vsrvcInfoAlloc hinit
      · cases hs
        exact h

end

/-- Adding a well-formed service to a sound space. -/
theorem addService_ok {space : SrvcSpace} (h : space.Sound) {srvci : VsrvcInfo}
    (hs : srvci.WellFormed) (now : Int) : ∃ s, addService space srvci now = .ok s ∧ s.Sound := by
  refine addService_holds (fun _ h => h.toFitting) (fun dest hd => ?_) h now
  obtain ⟨d, hcopy, hsound, -⟩ := vsrvcInfoCopy_ok hd hs.copyable
  exact ⟨d, hcopy, hsound⟩

end Vdht.Route
