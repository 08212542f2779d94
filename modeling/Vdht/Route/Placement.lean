import Vdht.Route.NodeSpace
import Vdht.Lib.Run

/-!
# Placement of peers

Every peer sits in the bucket of its id, the local id is never stored, no id is stored twice
and no bucket is over-full. The records of the peers stay sound, so no operation of the space
leaves the block of a record.

An update keeps the id of the peer, also when the scan of `add_node` picked a victim for a node
with another id: `vnodeInfo_merge` does nothing then. A new peer is only appended when the scan
of its bucket met neither its id nor, by placement, could it be in another bucket.
-/

namespace Vdht.Route

open NodeId Lib

/-- The record of a peer is sound and has an address. -/
def PeerOk (p : Vpeer) : Prop := p.nodei.Sound ∧ 1 ≤ p.nodei.naddrs

/-- What a bucket of the space has to satisfy. -/
structure GoodBucket (myid : Token) (bucketSz : Nat) (i : Fin NBUCKETS) (peers : List Vpeer) :
    Prop where
  ok : BucketOk (vnodeIdBucket myid) (fun p : Vpeer => p.nodei.id) bucketSz i peers
  not_local : ∀ p ∈ peers, p.nodei.id ≠ myid
  records : ∀ p ∈ peers, PeerOk p

/-- What holds of a space of peers in every run: each of its buckets is placed by the distance of
the ids, sized and free of doubles. -/
def NodeSpace.Inv (space : NodeSpace) : Prop :=
  ∀ i, GoodBucket space.myid space.bucket_sz i (space.bucket i).peers

/-- The placement invariant, over the whole table. -/
structure NodeSpace.Placed (space : NodeSpace) : Prop where
  in_bucket : ∀ i, ∀ p ∈ (space.bucket i).peers, vnodeIdBucket space.myid p.nodei.id = i
  not_local : ∀ p ∈ space.peers, p.nodei.id ≠ space.myid
  distinct : (space.peers.map fun p => p.nodei.id).Nodup
  bounded : ∀ i, (space.bucket i).peers.length ≤ space.bucket_sz

theorem NodeSpace.Inv.placed {space : NodeSpace} (h : space.Inv) : space.Placed where
  in_bucket := fun i p hp => (h i).ok.placed p hp
  not_local := by
    intro p hp
    obtain ⟨i, hi⟩ := mem_allItems.mp hp
    exact (h i).not_local p hi
  distinct := nodup_allItems fun i => (h i).ok
  bounded := fun i => (h i).ok.bounded

theorem NodeSpace.Inv.peerOk {space : NodeSpace} (h : space.Inv) {p : Vpeer}
    (hp : p ∈ space.peers) : PeerOk p := by
  obtain ⟨i, hi⟩ := mem_allItems.mp hp
  exact (h i).records p hi

/-! ## Buckets -/

theorem inv_setBucket {space : NodeSpace} (h : space.Inv) {i : Fin NBUCKETS} {b : Bucket}
    (hb : GoodBucket space.myid space.bucket_sz i b.peers) : (space.setBucket i b).Inv := by
  intro j
  show GoodBucket space.myid space.bucket_sz j (Function.update space.bucket i b j).peers
  by_cases hj : j = i
  · subst hj
    rw [Function.update_self]
    exact hb
  · rw [Function.update_of_ne hj]
    exact h j

/-- Peers may change anything but their records. -/
theorem GoodBucket.of_nodeis {myid : Token} {sz : Nat} {i : Fin NBUCKETS} {ps qs : List Vpeer}
    (h : GoodBucket myid sz i ps) (hq : qs.map (·.nodei) = ps.map (·.nodei)) :
    GoodBucket myid sz i qs := by
  have hmem : ∀ q ∈ qs, ∃ p ∈ ps, p.nodei = q.nodei := by
    intro q hqm
    have hm : q.nodei ∈ ps.map (·.nodei) := by
      rw [← hq]
      exact List.mem_map_of_mem hqm
    obtain ⟨p, hp, hpq⟩ := List.mem_map.mp hm
    exact ⟨p, hp, hpq⟩
  refine ⟨?_, ?_, ?_⟩
  · apply h.ok.of_keys
    have hids := congrArg (List.map VnodeInfo.id) hq
    rwa [List.map_map, List.map_map] at hids
  · intro q hqm
    obtain ⟨p, hp, hpq⟩ := hmem q hqm
    rw [← hpq]
    exact h.not_local p hp
  · intro q hqm
    obtain ⟨p, hp, hpq⟩ := hmem q hqm
    have hok := h.records p hp
    unfold PeerOk at hok ⊢
    rwa [hpq] at hok

/-- A peer may be replaced by one with the same id. -/
theorem GoodBucket.set {myid : Token} {sz : Nat} {i : Fin NBUCKETS} {ps : List Vpeer}
    (h : GoodBucket myid sz i ps) {j : Nat} {p q : Vpeer} (hp : ps[j]? = some p)
    (hid : q.nodei.id = p.nodei.id) (hq : PeerOk q) : GoodBucket myid sz i (ps.set j q) := by
  have hpm : p ∈ ps := List.mem_of_getElem? hp
  refine ⟨h.ok.set hp hid, ?_, ?_⟩
  · intro r hr
    rcases List.mem_or_eq_of_mem_set hr with hr | rfl
    · exact h.not_local r hr
    · rw [hid]
      exact h.not_local p hpm
  · intro r hr
    rcases List.mem_or_eq_of_mem_set hr with hr | rfl
    · exact h.records r hr
    · exact hq

theorem GoodBucket.append {myid : Token} {sz : Nat} {i : Fin NBUCKETS} {ps : List Vpeer}
    (h : GoodBucket myid sz i ps) {q : Vpeer} (hplace : vnodeIdBucket myid q.nodei.id = i)
    (hnew : ∀ p ∈ ps, p.nodei.id ≠ q.nodei.id) (hroom : ps.length < sz)
    (hlocal : q.nodei.id ≠ myid) (hq : PeerOk q) : GoodBucket myid sz i (ps ++ [q]) := by
  refine ⟨h.ok.append hplace ?_ hroom, ?_, ?_⟩
  · intro hmem
    obtain ⟨p, hp, hpq⟩ := List.mem_map.mp hmem
    exact hnew p hp hpq
  · intro r hr
    rcases List.mem_append.mp hr with hr | hr
    · exact h.not_local r hr
    · rw [List.mem_singleton.mp hr]
      exact hlocal
  · intro r hr
    rcases List.mem_append.mp hr with hr | hr
    · exact h.records r hr
    · rw [List.mem_singleton.mp hr]
      exact hq

/-! ## Adding a node -/

/-- What the scan of `ps` from position `start` on, with the earlier choice `want`, reports:
the peer with the id, or that there is none and which peer it wants. -/
def WorstReport (id : Token) (ps : List Vpeer) (start : Nat) (want : Option Nat)
    (res : Bool × Option Nat) : Prop :=
  (∃ j p, res = (true, some (start + j)) ∧ ps[j]? = some p ∧ p.nodei.id = id) ∨
    (res.1 = false ∧ (∀ p ∈ ps, p.nodei.id ≠ id) ∧
      (res.2 = want ∨ ∃ j p, res.2 = some (start + j) ∧ ps[j]? = some p))

theorem WorstReport.cons {id : Token} {q : Vpeer} {ps : List Vpeer} {start : Nat}
    {want w : Option Nat} {res : Bool × Option Nat} (h : WorstReport id ps (start + 1) w res)
    (hne : q.nodei.id ≠ id) (hw : w = want ∨ w = some start) :
    WorstReport id (q :: ps) start want res :=
  ScanReport.cons h hne hw

theorem findWorst_spec (id : Token) (ps : List Vpeer) :
    ∀ (start : Nat) (minWgt maxTry : Int) (want : Option Nat),
      WorstReport id ps start want (findWorst id ps start minWgt maxTry want) := by
  induction ps with
  | nil =>
    intro start minWgt maxTry want
    exact Or.inr ⟨rfl, by simp, Or.inl rfl⟩
  | cons q ps ih =>
    intro start minWgt maxTry want
    by_cases hid : vtokenEqual q.nodei.id id = true
    · refine Or.inl ⟨0, q, ?_, rfl, vtokenEqual_iff.mp hid⟩
      rw [findWorst, if_pos hid]
      rfl
    · have hne : q.nodei.id ≠ id := fun h => hid (vtokenEqual_iff.mpr h)
      rw [findWorst, if_neg hid]
      by_cases htry : maxTry < q.ntry_pings
      · rw [if_pos htry]
        exact (ih _ _ _ _).cons hne (Or.inr rfl)
      · rw [if_neg htry]
        by_cases hwgt : minWgt > q.nodei.weight.toInt
        · rw [if_pos hwgt]
          exact (ih _ _ _ _).cons hne (Or.inr rfl)
        · rw [if_neg hwgt]
          exact (ih _ _ _ _).cons hne (Or.inl rfl)

theorem vpeerTouch_nodei (space : NodeSpace) (p : Vpeer) (flag : AddFlag) (now : Int) :
    (vpeerTouch space p flag now).nodei = p.nodei := by
  cases flag <;> rfl

/-- An update keeps the id of the peer. -/
theorem vpeerUpdate_ok {space : NodeSpace} {p : Vpeer} {nodei : VnodeInfo} (flag : AddFlag)
    (now : Int) (hp : PeerOk p) (hn : nodei.WellFormed) :
    ∃ q ret, vpeerUpdate space p nodei flag now = .ok (q, ret) ∧ PeerOk q ∧
      q.nodei.id = p.nodei.id := by
  obtain ⟨d, ret, hm, hd1⟩ := vnodeInfoMerge_total hp.1 hp.2 hn
  obtain ⟨hds, hid⟩ := vnodeInfoMerge_inv hp.1 hm
  unfold vpeerUpdate
  dsimp only
  rw [vpeerTouch_nodei, hm]
  dsimp only
  split
  · obtain ⟨worst, hw⟩ := vnodeInfoWorstAddr_total hds hd1
    rw [hw]
    exact ⟨_, ret, rfl, ⟨hds, hd1⟩, hid⟩
  · exact ⟨_, ret, rfl, ⟨hds, hd1⟩, hid⟩

/-- What an update does when it returns. -/
theorem vpeerUpdate_cases {space : NodeSpace} {p q : Vpeer} {nodei : VnodeInfo} {flag : AddFlag}
    {now ret : Int} (h : vpeerUpdate space p nodei flag now = .ok (q, ret)) :
    ∃ d, vnodeInfoMerge p.nodei nodei = .ok (d, ret) ∧
      ((ret > 0 ∧ ∃ worst, vnodeInfoWorstAddr d = .ok worst ∧
          q = { vpeerTouch space p flag now with
            nodei := d, conn := vnodeConnSetRaw space.zaddr worst, ntry_probes := 0 }) ∨
        (¬ ret > 0 ∧ q = { vpeerTouch space p flag now with nodei := d })) := by
  unfold vpeerUpdate at h
  dsimp only at h
  rw [vpeerTouch_nodei] at h
  split at h
  · cases h
  rename_i d r hmerge
  split at h
  · rename_i hpos
    split at h
    · cases h
    rename_i worst hworst
    cases h
    exact ⟨d, hmerge, Or.inl ⟨hpos, worst, hworst, rfl⟩⟩
  · rename_i hpos
    cases h
    exact ⟨d, hmerge, Or.inr ⟨hpos, rfl⟩⟩

theorem updatePeer_ok {space : NodeSpace} (h : space.Inv) {idx : Fin NBUCKETS} {j : Nat}
    {p : Vpeer} {nodei : VnodeInfo} (hp : (space.bucket idx).peers[j]? = some p)
    (hn : nodei.WellFormed) (flag : AddFlag) (now : Int) :
    ∃ s, updatePeer space idx j nodei flag now = .ok s ∧ s.Inv := by
  have hpm : p ∈ (space.bucket idx).peers := List.mem_of_getElem? hp
  obtain ⟨q, ret, hu, hq, hid⟩ :=
    @vpeerUpdate_ok space p nodei flag now ((h idx).records p hpm) hn
  unfold updatePeer getSlot
  rw [hp]
  dsimp only
  rw [hu]
  exact ⟨_, rfl, inv_setBucket h ((h idx).set hp hid hq)⟩

theorem fitting_vpeerAllocNodei : vpeerAllocNodei.Fitting := by
  refine ⟨by decide, by decide, by decide, by decide⟩

theorem vpeerInit_ok (space : NodeSpace) {nodei : VnodeInfo} (hn : nodei.WellFormed) (now : Int) :
    ∃ q, vpeerInit space nodei now = .ok q ∧ PeerOk q ∧ q.nodei.id = nodei.id := by
  obtain ⟨d, r, hcopy, -, hds, hid, hd1⟩ := vnodeInfoCopy_wellFormed fitting_vpeerAllocNodei hn
  obtain ⟨worst, hw⟩ := vnodeInfoWorstAddr_total hds hd1
  unfold vpeerInit
  rw [hcopy]
  dsimp only
  rw [hw]
  exact ⟨_, rfl, ⟨hds, hd1⟩, hid⟩

theorem vpeerInit_cases {space : NodeSpace} {q : Vpeer} {nodei : VnodeInfo} {now : Int}
    (h : vpeerInit space nodei now = .ok q) :
    ∃ d r worst, vnodeInfoCopy vpeerAllocNodei nodei = .ok (d, r) ∧
      vnodeInfoWorstAddr d = .ok worst ∧
      q = ⟨vnodeConnSetRaw space.zaddr worst, d, now, space.init_next_tmo, 0, 0⟩ := by
  unfold vpeerInit at h
  split at h
  · cases h
  rename_i d r hcopy
  split at h
  · cases h
  rename_i worst hworst
  cases h
  exact ⟨d, r, worst, hcopy, hworst, rfl⟩

theorem bumpWeight_id (space : NodeSpace) (nodei : VnodeInfo) :
    (bumpWeight space nodei).id = nodei.id := by
  unfold bumpWeight
  split <;> rfl

theorem bumpWeight_wellFormed (space : NodeSpace) {nodei : VnodeInfo} (h : nodei.WellFormed) :
    (bumpWeight space nodei).WellFormed := by
  unfold bumpWeight
  split
  · exact ⟨h.pos, h.le_max, h.stored⟩
  · exact h

/-- A node that is new goes to the end of its bucket when there is room. -/
theorem addNode_new {space : NodeSpace} {n : VnodeInfo} (hlocal : n.id ≠ space.myid)
    (hnew : ∀ p ∈ (space.bucket (vnodeIdBucket space.myid n.id)).peers, p.nodei.id ≠ n.id)
    (hroom : (space.bucket (vnodeIdBucket space.myid n.id)).peers.length < space.bucket_sz)
    (flag : AddFlag) (now : Int) :
    addNode space n flag now =
      appendPeer space (vnodeIdBucket space.myid n.id) (bumpWeight space n) now := by
  have hnot : ¬ vtokenEqual space.myid n.id = true :=
    fun heq => hlocal (vtokenEqual_iff.mp heq).symm
  rw [addNode, if_neg hnot]
  dsimp only
  rw [bumpWeight_id]
  rcases findWorst_spec n.id (space.bucket (vnodeIdBucket space.myid n.id)).peers 0
    (bumpWeight space n).weight.toInt 3 none with ⟨j, p, -, hj, hid⟩ | ⟨hfound, -, -⟩
  · exact absurd hid (hnew p (List.mem_of_getElem? hj))
  · split
    · rename_i heq
      rw [heq] at hfound
      cases hfound
    · rw [if_neg fun hfull => absurd hfull.2 (Nat.not_le.mpr hroom), if_pos hroom]

theorem addNode_ok {space : NodeSpace} (h : space.Inv) {nodei : VnodeInfo}
    (hn : nodei.WellFormed) (flag : AddFlag) (now : Int) :
    ∃ s, addNode space nodei flag now = .ok s ∧ s.Inv := by
  unfold addNode
  by_cases hmy : vtokenEqual space.myid nodei.id = true
  · rw [if_pos hmy]
    exact ⟨space, rfl, h⟩
  · rw [if_neg hmy]
    dsimp only
    rw [bumpWeight_id]
    have hne : nodei.id ≠ space.myid := fun he => hmy (vtokenEqual_iff.mpr he.symm)
    have hwf := bumpWeight_wellFormed space hn
    have hbid := bumpWeight_id space nodei
    generalize bumpWeight space nodei = neo at hwf hbid
    generalize hidx : vnodeIdBucket space.myid nodei.id = idx
    rcases findWorst_spec nodei.id (space.bucket idx).peers 0 neo.weight.toInt 3 none with
      ⟨j, p, hres, hj, -⟩ | ⟨hres, hnone, hwant⟩
    · rw [hres]
      dsimp only
      rw [Nat.zero_add]
      exact updatePeer_ok h hj hwf flag now
    · generalize findWorst nodei.id (space.bucket idx).peers 0 neo.weight.toInt 3 none = res
        at hres hwant
      obtain ⟨found, want⟩ := res
      dsimp only at hres hwant
      subst hres
      dsimp only
      by_cases hfull : want.isSome = true ∧ (space.bucket idx).peers.length ≥ space.bucket_sz
      · rw [if_pos hfull]
        rcases hwant with rfl | ⟨j, p, rfl, hj⟩
        · exact absurd hfull.1 (by simp)
        · rw [Option.getD_some, Nat.zero_add]
          exact updatePeer_ok h hj hwf flag now
      · rw [if_neg hfull]
        by_cases hroom : (space.bucket idx).peers.length < space.bucket_sz
        · rw [if_pos hroom]
          obtain ⟨q, hq, hqok, hqid⟩ := vpeerInit_ok space hwf now
          rw [hbid] at hqid
          unfold appendPeer
          rw [hq]
          refine ⟨_, rfl, inv_setBucket h ((h idx).append ?_ ?_ hroom ?_ hqok)⟩
          · rw [hqid]
            exact hidx
          · intro p hp
            rw [hqid]
            exact hnone p hp
          · rw [hqid]
            exact hne
        · rw [if_neg hroom]
          exact ⟨space, rfl, h⟩

/-! ## The other operations -/

theorem onPeer_nodeis {id : Token} {f : Vpeer → Vpeer} (hf : ∀ p, (f p).nodei = p.nodei)
    (ps : List Vpeer) : (onPeer id f ps).map (·.nodei) = ps.map (·.nodei) := by
  induction ps with
  | nil => rfl
  | cons p ps ih =>
    unfold onPeer
    split
    · simp [hf]
    · simp [ih]

theorem kickNode_inv {space : NodeSpace} (h : space.Inv) (id : Token) (now : Int) :
    (kickNode space id now).1.Inv := by
  apply inv_setBucket h
  apply (h _).of_nodeis
  exact @onPeer_nodeis id (kickPeer space now) (fun _ => rfl) _

theorem adjustConnectivity_inv {space : NodeSpace} (h : space.Inv) (id : Token)
    (conn : VnodeConn) : (adjustConnectivity space id conn).Inv := by
  apply inv_setBucket h
  apply (h _).of_nodeis
  exact @onPeer_nodeis id (fun p => { p with conn := vnodeConnAdjust p.conn conn })
    (fun _ => rfl) _

/-- A step on every bucket that keeps the records of its peers. -/
theorem eachBucket_ok {step : Fin NBUCKETS → Bucket → Res (Bucket × List DhtCall)}
    (hstep : ∀ i b, (∀ p ∈ b.peers, PeerOk p) → ∃ b' calls, step i b = .ok (b', calls) ∧
      b'.peers.map (·.nodei) = b.peers.map (·.nodei)) (is : List (Fin NBUCKETS)) :
    ∀ {space : NodeSpace}, space.Inv → ∃ s calls, eachBucket step space is = .ok (s, calls) ∧
      s.Inv := by
  induction is with
  | nil =>
    intro space h
    exact ⟨space, [], rfl, h⟩
  | cons i is ih =>
    intro space h
    obtain ⟨b, calls, hb, hrec⟩ := hstep i (space.bucket i) (h i).records
    obtain ⟨s, rest, hs, hinv⟩ := ih (inv_setBucket h ((h i).of_nodeis hrec))
    refine ⟨s, calls ++ rest, ?_, hinv⟩
    rw [eachBucket, hb]
    dsimp only
    rw [hs]

theorem probePeers_ok (space : NodeSpace) (laddr : VsockaddrIn) {ps : List Vpeer}
    (h : ∀ p ∈ ps, PeerOk p) :
    ∃ qs calls, probePeers space laddr ps = .ok (qs, calls) ∧
      qs.map (·.nodei) = ps.map (·.nodei) := by
  induction ps with
  | nil => exact ⟨[], [], rfl, rfl⟩
  | cons p ps ih =>
    obtain ⟨hsound, hpos⟩ := h p List.mem_cons_self
    obtain ⟨qs, calls, hqs, hrec⟩ := ih fun q hq => h q (List.mem_cons_of_mem _ hq)
    unfold probePeers
    split
    · have hlen : 0 < p.nodei.addrs.length := by
        have hslots := hsound.slots
        have hle := hsound.naddrs_le
        omega
      unfold probeCalls
      rw [if_neg (by omega), getSlot_ok hlen]
      dsimp only
      rw [hqs]
      exact ⟨_, _, rfl, by simp [hrec]⟩
    · rw [hqs]
      exact ⟨_, _, rfl, by simp [hrec]⟩

theorem probeConnectivity_ok {space : NodeSpace} (h : space.Inv) (laddr : VsockaddrIn) :
    ∃ s calls, probeConnectivity space laddr = .ok (s, calls) ∧ s.Inv := by
  apply eachBucket_ok _ _ h
  intro i b hb
  obtain ⟨qs, calls, hqs, hrec⟩ := probePeers_ok space laddr hb
  rw [hqs]
  exact ⟨_, _, rfl, hrec⟩

theorem pingPeer_nodei (space : NodeSpace) (now : Int) (p : Vpeer) :
    (pingPeer space now p).1.nodei = p.nodei := by
  unfold pingPeer
  split
  · rfl
  · split <;> rfl

theorem pingPeer_conn (space : NodeSpace) (now : Int) (p : Vpeer) :
    (pingPeer space now p).1.conn = p.conn := by
  unfold pingPeer
  split
  · rfl
  · split <;> rfl

theorem tickBucket_ok (space : NodeSpace) (now : Int) (rand : Nat) (b : Bucket) :
    ∃ b' calls, tickBucket space now rand b = .ok (b', calls) ∧
      b'.peers.map (·.nodei) = b.peers.map (·.nodei) := by
  have hrec : (b.peers.map fun p => (pingPeer space now p).1).map (·.nodei) =
      b.peers.map (·.nodei) := by
    rw [List.map_map]
    apply List.map_congr_left
    intro p _
    exact pingPeer_nodei space now p
  unfold tickBucket
  dsimp only
  split
  · exact ⟨_, _, rfl, hrec⟩
  · split
    · exact ⟨_, _, rfl, hrec⟩
    · rename_i hne _
      rw [getSlot_ok (Nat.mod_lt _ (Nat.pos_of_ne_zero hne))]
      dsimp only
      split
      · exact ⟨_, _, rfl, hrec⟩
      · exact ⟨_, _, rfl, hrec⟩

theorem eachBucket_total {step : Fin NBUCKETS → Bucket → Res (Bucket × List DhtCall)}
    (hstep : ∀ i b, ∃ b' calls, step i b = .ok (b', calls)) (space : NodeSpace)
    (is : List (Fin NBUCKETS)) : ∃ s calls, eachBucket step space is = .ok (s, calls) := by
  induction is generalizing space with
  | nil => exact ⟨space, [], rfl⟩
  | cons i is ih =>
    obtain ⟨b, calls, hb⟩ := hstep i (space.bucket i)
    obtain ⟨s, rest, hs⟩ := ih (space.setBucket i b)
    refine ⟨s, calls ++ rest, ?_⟩
    rw [eachBucket, hb]
    dsimp only
    rw [hs]

/-- A tick needs nothing of the space. -/
theorem nodeSpaceTick_total (space : NodeSpace) (rand : Fin NBUCKETS → Nat) (now : Int) :
    ∃ s calls, nodeSpaceTick space rand now = .ok (s, calls) :=
  eachBucket_total (fun i b => (tickBucket_ok space now (rand i) b).imp fun _ h =>
    h.imp fun _ hok => hok.1) space _

theorem nodeSpaceTick_ok {space : NodeSpace} (h : space.Inv) (rand : Fin NBUCKETS → Nat)
    (now : Int) : ∃ s calls, nodeSpaceTick space rand now = .ok (s, calls) ∧ s.Inv := by
  apply eachBucket_ok _ _ h
  intro i b _
  exact tickBucket_ok space now (rand i) b

theorem nodeSpaceClear_inv (space : NodeSpace) : (nodeSpaceClear space).Inv :=
  fun i => ⟨.nil i, by simp [nodeSpaceClear], by simp [nodeSpaceClear]⟩

/-! ## Runs -/

/-- The node infos that are added are well formed. -/
def SpaceOp.Admissible : SpaceOp → Prop
  | .addNode nodei _ => nodei.WellFormed
  | _ => True

theorem spaceExec_ok {space : NodeSpace} (h : space.Inv) (op : Int × SpaceOp)
    (hop : op.2.Admissible) : ∃ s, spaceExec space op = .ok s ∧ s.Inv := by
  obtain ⟨now, op⟩ := op
  cases op with
  | addNode nodei flag => exact addNode_ok h hop flag now
  | kickNode id => exact ⟨_, rfl, kickNode_inv h id now⟩
  | adjustConnectivity id conn => exact ⟨_, rfl, adjustConnectivity_inv h id conn⟩
  | probeConnectivity laddr =>
    obtain ⟨s, calls, hs, hinv⟩ := probeConnectivity_ok h laddr
    exact ⟨s, by rw [spaceExec, hs]; rfl, hinv⟩
  | tick rand =>
    obtain ⟨s, calls, hs, hinv⟩ := nodeSpaceTick_ok h rand now
    exact ⟨s, by rw [spaceExec, hs]; rfl, hinv⟩
  | clear => exact ⟨_, rfl, nodeSpaceClear_inv space⟩

theorem inv_init (zaddr : SockaddrIn) (bucketSz : Nat) (maxNextTmo : Int) (myid myver : Token) :
    (nodeSpaceInit zaddr bucketSz maxNextTmo myid myver).Inv :=
  fun i => ⟨.nil i, by simp [nodeSpaceInit], by simp [nodeSpaceInit]⟩

/-- Every run of operations at any times, in which the records that are added are well formed,
succeeds from the initial space and ends in a placed one: each peer is in the bucket of its id, once
and nowhere else, the own node is not a peer, and no bucket is larger than its size. -/
theorem nodeSpace_run_placed (zaddr : SockaddrIn) (bucketSz : Nat) (maxNextTmo : Int)
    (myid myver : Token) (ops : List (Int × SpaceOp)) (hops : ∀ op ∈ ops, op.2.Admissible) :
    ∃ s, run spaceExec (nodeSpaceInit zaddr bucketSz maxNextTmo myid myver) ops = .ok s ∧
      s.Placed := by
  obtain ⟨s, hs, hinv⟩ := run_total (fun s op hI hP => spaceExec_ok hI op hP)
    (inv_init zaddr bucketSz maxNextTmo myid myver) hops
  exact ⟨s, hs, hinv.placed⟩

/-- A node with one address. -/
def oneAddrNode (id : Token) : VnodeInfo where
  naddrs := 1
  capc := 4
  addrs := [zeroAddr]
  id := id
  ver := Block.zero VTOKEN_LEN
  weight := 0

theorem oneAddrNode_wellFormed (id : Token) : (oneAddrNode id).WellFormed :=
  ⟨by simp [oneAddrNode], by simp [oneAddrNode, MAX_ADDRS], by simp [oneAddrNode]⟩

/-- The same node is announced twice and then kicked. -/
theorem nodeSpace_run_placed_twice :
    ∃ s, run spaceExec (nodeSpaceInit zeroAddr.addr 1 10 (Block.zero 20) (Block.zero 20))
      [(1, .addNode (oneAddrNode (Block.ofList 20 [1])) .byPingRsp),
        (2, .addNode (oneAddrNode (Block.ofList 20 [1])) .byOther),
        (3, .kickNode (Block.ofList 20 [1])), (4, .tick fun _ => 0)] = .ok s ∧ s.Placed := by
  apply nodeSpace_run_placed
  intro op hop
  simp only [List.mem_cons, List.not_mem_nil, or_false] at hop
  rcases hop with rfl | rfl | rfl | rfl
  · exact oneAddrNode_wellFormed _
  · exact oneAddrNode_wellFormed _
  · trivial
  · trivial

end Vdht.Route
