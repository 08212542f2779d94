import Vdht.Route.Placement
import Vdht.Utils.SortedArray

/-!
# The closest nodes

`_vroute_node_space_find_closest_nodes` ranks the eligible peers with the comparator
`_aux_space_weight_cmp_cb` and copies the first `num` of them into fresh records. Among peers
that do not differ in unanswered pings, version and weight the comparator only looks at the
distance to the target.
-/

namespace Vdht.Route

open NodeId Lib Utils

/-! ## The search -/

/-- `_aux_space_weight_cmp_cb`: the better of two peers for a target, by the pings that went
unanswered, then the version, then the weight, then the distance of the ids. The comparison of the
versions says `-1` either way round. -/
def weightCmp (targetId : Token) (peer target : Vpeer) : Int :=
  if target.ntry_pings > peer.ntry_pings then -1
  else if vtokenEqual target.nodei.ver peer.nodei.ver = false then -1
  else if target.nodei.weight.toInt > peer.nodei.weight.toInt then 1
  else
    vnodeMetricCmp (vnodeIdDist target.nodei.id targetId) (vnodeIdDist peer.nodei.id targetId)

/-- Whether a peer may be among the closest of a target: it is not the target itself, its id is
known, and it has not been found unreachable. -/
def isEligible (space : NodeSpace) (targetId : Token) (p : Vpeer) : Bool :=
  !vtokenEqual p.nodei.id targetId && !vnodeInfoIsFake p.nodei &&
    !(p.next_tmo ≥ space.max_next_tmo_unreachable)

/-- The peers of a space that may be among the closest of a target, bucket after bucket. -/
def eligiblePeers (space : NodeSpace) (targetId : Token) : List Vpeer :=
  space.peers.filter (isEligible space targetId)

/-- The loop that copies the first `num` of the ranked peers. -/
def copyRanked (space : NodeSpace) : List Vpeer → Nat → Res (List VnodeInfo)
  | [], _ => .ok []
  | _ :: _, 0 => .ok []
  | p :: ps, num + 1 =>
    match vnodeInfoCopy vnodeInfoRelax p.nodei with
    | .error e => .error e
    | .ok (d, _) =>
      match copyRanked space ps num with
      | .error e => .error e
      | .ok rest => .ok (dropWeight space d :: rest)

/-- The records put into `closest`; their number is returned. -/
def findClosestNodes (space : NodeSpace) (targetId : Token) (num : Int) :
    Res (List VnodeInfo) :=
  if num ≤ 0 then .error .assertion
  else copyRanked space (rank (weightCmp targetId) (eligiblePeers space targetId)) num.toNat

/-! ## The records -/

/-- The record is a copy of the record of the peer. The weight bonus for an equal version is
taken off again, and the addresses come in the order of their base types. -/
structure Carries (space : NodeSpace) (p : Vpeer) (n : VnodeInfo) : Prop where
  id : n.id = p.nodei.id
  ver : n.ver = p.nodei.ver
  weight : n.weight =
    if p.nodei.ver = space.myver then p.nodei.weight - 1 else p.nodei.weight
  addrs : ∀ a, HasAddr n.used a ↔ HasAddr p.nodei.used a
  perm : DistinctAddrs p.nodei.used → n.used.Perm p.nodei.used
  same : DistinctAddrs p.nodei.used → SortedAddrs vsockaddrType p.nodei.used →
    n.used = p.nodei.used

theorem copy_carries {space : NodeSpace} {p : Vpeer} (h : PeerOk p) :
    ∃ d r, vnodeInfoCopy vnodeInfoRelax p.nodei = .ok (d, r) ∧
      Carries space p (dropWeight space d) := by
  obtain ⟨hs, hpos⟩ := h
  have hslots := hs.slots
  have hle := hs.naddrs_le
  obtain ⟨d, r, hcopy, -, -, hid, hver, hweight, hused⟩ :=
    vnodeInfoCopy_ok fitting_relax hs.naddrs_le_max (by omega)
  refine ⟨d, r, hcopy, ?_⟩
  have hdused : (dropWeight space d).used = d.used := by
    unfold dropWeight
    split <;> rfl
  constructor
  · rw [← hid]
    unfold dropWeight
    split <;> rfl
  · rw [← hver]
    unfold dropWeight
    split <;> rfl
  · unfold dropWeight
    simp only [vtokenEqual_iff, hver]
    split
    · rw [← hweight]
    · exact hweight
  · intro a
    rw [hdused, hused, hasAddr_putAddrs]
    simp [HasAddr]
  · intro hd
    rw [hdused, hused]
    exact putAddrs_perm hd
  · intro hd hsort
    rw [hdused, hused]
    exact putAddrs_sorted hd hsort

theorem copyRanked_ok {space : NodeSpace} {ps : List Vpeer} (h : ∀ p ∈ ps, PeerOk p) (num : Nat) :
    ∃ infos, copyRanked space ps num = .ok infos ∧
      List.Forall₂ (Carries space) (ps.take num) infos := by
  induction ps generalizing num with
  | nil => exact ⟨[], rfl, by simp⟩
  | cons p ps ih =>
    cases num with
    | zero => exact ⟨[], rfl, by simp⟩
    | succ num =>
      obtain ⟨d, r, hcopy, hcar⟩ := @copy_carries space p (h p List.mem_cons_self)
      obtain ⟨rest, hrest, hall⟩ := ih (fun q hq => h q (List.mem_cons_of_mem _ hq)) num
      refine ⟨dropWeight space d :: rest, ?_, ?_⟩
      · rw [copyRanked, hcopy]
        dsimp only
        rw [hrest]
      · rw [List.take_succ_cons]
        exact List.Forall₂.cons hcar hall

/-! ## The distance -/

/-- The distance of a peer to the target, as a number. -/
def distTo (targetId : Token) (p : Vpeer) : Nat := metricVal (vnodeIdDist p.nodei.id targetId)

theorem weightCmp_eq (targetId : Token) (p q : Vpeer) :
    weightCmp targetId p q =
      if q.ntry_pings > p.ntry_pings then -1
      else if q.nodei.ver ≠ p.nodei.ver then -1
      else if q.nodei.weight.toInt > p.nodei.weight.toInt then 1
      else if distTo targetId q < distTo targetId p then 1
      else if distTo targetId p < distTo targetId q then -1
      else 0 := by
  unfold weightCmp
  simp only [Bool.eq_false_iff, ne_eq, vtokenEqual_iff]
  rw [vnodeMetricCmp_eq]
  rfl

/-- Peers of the space with the same id are the same peer. -/
theorem peer_eq_of_id {space : NodeSpace} (h : space.Placed) {p q : Vpeer} (hp : p ∈ space.peers)
    (hq : q ∈ space.peers) (hid : p.nodei.id = q.nodei.id) : p = q :=
  List.inj_on_of_nodup_map h.distinct hp hq hid

theorem peer_eq_of_dist {space : NodeSpace} (h : space.Placed) {targetId : Token} {p q : Vpeer}
    (hp : p ∈ eligiblePeers space targetId) (hq : q ∈ eligiblePeers space targetId)
    (hd : distTo targetId p = distTo targetId q) : p = q :=
  peer_eq_of_id h (List.mem_of_mem_filter hp) (List.mem_of_mem_filter hq) (dist_injective hd)

/-- The eligible peers do not differ in unanswered pings, version and weight. -/
def Alike (ps : List Vpeer) : Prop :=
  ∀ p ∈ ps, ∀ q ∈ ps, p.ntry_pings = q.ntry_pings ∧ p.nodei.ver = q.nodei.ver ∧
    p.nodei.weight = q.nodei.weight

theorem weightCmp_alike {targetId : Token} {ps : List Vpeer} (h : Alike ps) {p q : Vpeer}
    (hp : p ∈ ps) (hq : q ∈ ps) :
    weightCmp targetId p q =
      if distTo targetId q < distTo targetId p then 1
      else if distTo targetId p < distTo targetId q then -1
      else 0 := by
  obtain ⟨hpings, hver, hweight⟩ := h p hp q hq
  rw [weightCmp_eq, if_neg (by omega), if_neg (by simp [hver]), if_neg (by rw [hweight]; omega)]

theorem threeWay_alike {targetId : Token} {ps : List Vpeer} (h : Alike ps) :
    ThreeWay (weightCmp targetId) ps where
  antisymm := by
    intro p hp q hq
    rw [weightCmp_alike h hp hq, weightCmp_alike h hq hp]
    split <;> split <;> omega
  trans := by
    intro p hp q hq r hr hpq hqr
    rw [weightCmp_alike h hp hq] at hpq
    rw [weightCmp_alike h hq hr] at hqr
    rw [weightCmp_alike h hp hr]
    split at hpq
    · omega
    · split at hqr
      · omega
      · rw [if_neg (by omega)]
        split <;> omega

/-- Among like peers the ranking goes by distance. -/
theorem rank_by_distance {space : NodeSpace} (h : space.Placed) {targetId : Token}
    (halike : Alike (eligiblePeers space targetId)) :
    (rank (weightCmp targetId) (eligiblePeers space targetId)).Pairwise
      fun p q => distTo targetId p < distTo targetId q := by
  have hperm := @rank_perm _ (weightCmp targetId) (eligiblePeers space targetId)
  have hsorted := rank_sorted (@threeWay_alike targetId _ halike)
  have hnodup : (rank (weightCmp targetId) (eligiblePeers space targetId)).Nodup := by
    rw [hperm.nodup_iff]
    exact (List.Nodup.of_map _ h.distinct).filter _
  apply (hsorted.and hnodup).imp_of_mem
  intro p q hp hq hpq
  have hp' := hperm.mem_iff.mp hp
  have hq' := hperm.mem_iff.mp hq
  have hcmp := hpq.1
  rw [weightCmp_alike halike hp' hq'] at hcmp
  have hne : distTo targetId p ≠ distTo targetId q := fun hd =>
    hpq.2 (peer_eq_of_dist h hp' hq' hd)
  split at hcmp
  · omega
  · omega

/-- The choice of `find_closest_nodes` among the eligible peers: the first `num` of the ranking, which
are different peers. Where the eligible peers do not differ in unanswered pings, version and weight they
are the nearest ones, nearest first. -/
structure ClosestPeers (space : NodeSpace) (targetId : Token) (num : Nat) (ps : List Vpeer) : Prop where
  ranked : ps = (rank (weightCmp targetId) (eligiblePeers space targetId)).take num
  length : ps.length = min num (eligiblePeers space targetId).length
  eligible : ∀ p ∈ ps, p ∈ eligiblePeers space targetId
  distinct : (ps.map fun p => p.nodei.id).Nodup
  nearest : Alike (eligiblePeers space targetId) →
    (ps.Pairwise fun p q => distTo targetId p < distTo targetId q) ∧
      ∀ q ∈ eligiblePeers space targetId, q ∉ ps → ∀ p ∈ ps, distTo targetId p < distTo targetId q

theorem closestPeers_take {space : NodeSpace} (h : space.Placed) (targetId : Token) (num : Nat) :
    ClosestPeers space targetId num
      ((rank (weightCmp targetId) (eligiblePeers space targetId)).take num) := by
  generalize hr : rank (weightCmp targetId) (eligiblePeers space targetId) = ranked
  have hperm : ranked.Perm (eligiblePeers space targetId) := hr ▸ rank_perm _
  have hsub : (ranked.take num).Sublist ranked := List.take_sublist _ _
  refine ⟨by rw [hr], ?_, fun p hp => hperm.mem_iff.mp (hsub.mem hp), ?_, fun halike => ?_⟩
  · rw [List.length_take, hperm.length_eq]
  · apply (hsub.map _).nodup
    rw [(hperm.map _).nodup_iff]
    exact (List.filter_sublist.map _).nodup h.distinct
  · have hdist := rank_by_distance h halike
    rw [hr] at hdist
    refine ⟨hdist.sublist hsub, ?_⟩
    intro q hq hqn p hp
    rw [← List.take_append_drop num ranked] at hdist hperm
    have hmem := hperm.mem_iff.mpr hq
    rcases List.mem_append.mp hmem with hin | hin
    · exact absurd hin hqn
    · exact (List.pairwise_append.mp hdist).2.2 p hp q hin

/-- A search returns the records of its choice. -/
theorem findClosestNodes_copies {space : NodeSpace} (h : space.Inv) (targetId : Token) {num : Int}
    (hnum : 0 < num) :
    ∃ infos ps, findClosestNodes space targetId num = .ok infos ∧
      ClosestPeers space targetId num.toNat ps ∧ List.Forall₂ (Carries space) ps infos := by
  have hok : ∀ p ∈ rank (weightCmp targetId) (eligiblePeers space targetId), PeerOk p :=
    fun p hp => h.peerOk (List.mem_of_mem_filter ((rank_perm _).mem_iff.mp hp))
  obtain ⟨infos, hinfos, hall⟩ := copyRanked_ok hok num.toNat
  refine ⟨infos, _, ?_, closestPeers_take h.placed targetId num.toNat, hall⟩
  unfold findClosestNodes
  rw [if_neg (by omega)]
  exact hinfos

/-- What `find_closest_nodes` returns in a space that keeps its invariant, when it is asked for at
least one node: as many records as there are eligible peers, up to that number, each of another such
peer and with its contents. When the eligible peers are alike in all but their ids, these are the
nearest ones, nearest first. -/
theorem findClosestNodes_spec (space : NodeSpace) (h : space.Inv) (targetId : Token) (num : Int)
    (hnum : 0 < num) :
    ∃ infos ps, findClosestNodes space targetId num = .ok infos ∧
      (infos.length : Int) = min num (eligiblePeers space targetId).length ∧
      (∀ p ∈ ps, p ∈ eligiblePeers space targetId) ∧ (ps.map fun p => p.nodei.id).Nodup ∧
      List.Forall₂ (Carries space) ps infos ∧
      (Alike (eligiblePeers space targetId) →
        (ps.Pairwise fun p q => distTo targetId p < distTo targetId q) ∧
        ∀ q ∈ eligiblePeers space targetId, q ∉ ps →
          ∀ p ∈ ps, distTo targetId p < distTo targetId q) := by
  obtain ⟨infos, ps, hfind, hps, hall⟩ := findClosestNodes_copies h targetId hnum
  have hlen := hps.length
  rw [hall.length_eq] at hlen
  exact ⟨infos, ps, hfind, by omega, hps.eligible, hps.distinct, hall, hps.nearest⟩

/-! ## A space with two peers -/

theorem goodBucket_nil {myid : Token} {sz : Nat} (i : Fin NBUCKETS) : GoodBucket myid sz i [] :=
  ⟨.nil i, by simp, by simp⟩

/-- A peer that answered its last ping. -/
def seenPeer (id ver : Token) : Vpeer where
  conn := vnodeConnSetRaw zeroAddr.addr zeroAddr.addr
  nodei := { oneAddrNode id with ver := ver, addrs := List.replicate 4 zeroAddr }
  tick_ts := 0
  next_tmo := 2
  ntry_pings := 0
  ntry_probes := 0

/-- The bucket of the ids that differ from the local id in the first bit. -/
def farBucket : Fin NBUCKETS := ⟨159, by decide⟩

/-- The peers of the far bucket are given, the other buckets are empty. -/
def farSpace (peers : List Vpeer) : NodeSpace :=
  { nodeSpaceInit zeroAddr.addr 10 3600 (Block.zero VTOKEN_LEN) (Block.zero VTOKEN_LEN) with
    bucket := fun i => ⟨if i = farBucket then peers else [], 0⟩ }

theorem farSpace_inv {p q : Vpeer} (hp : PeerOk p) (hq : PeerOk q)
    (hpb : (vnodeIdBucket (Block.zero VTOKEN_LEN) p.nodei.id) = farBucket)
    (hqb : (vnodeIdBucket (Block.zero VTOKEN_LEN) q.nodei.id) = farBucket)
    (hpl : p.nodei.id ≠ Block.zero VTOKEN_LEN) (hql : q.nodei.id ≠ Block.zero VTOKEN_LEN)
    (hpq : p.nodei.id ≠ q.nodei.id) : (farSpace [p, q]).Inv := by
  intro i
  by_cases hi : i = farBucket
  · have hb : ((farSpace [p, q]).bucket i).peers = [p, q] := by simp [farSpace, hi]
    rw [hb]
    have hone : GoodBucket (Block.zero VTOKEN_LEN) 10 i [p] :=
      (goodBucket_nil i).append (hpb.trans hi.symm) (by simp) (by simp) hpl hp
    exact hone.append (hqb.trans hi.symm) (by simpa using hpq) (by simp) hql hq
  · have hb : ((farSpace [p, q]).bucket i).peers = [] := by simp [farSpace, hi]
    rw [hb]
    exact goodBucket_nil i

theorem seenPeer_ok (id ver : Token) : PeerOk (seenPeer id ver) := by
  refine ⟨⟨⟨?_, ?_, ?_, ?_⟩, ?_, ?_⟩, ?_⟩ <;>
    simp [seenPeer, oneAddrNode, MAX_ADDRS, nodeRule, VNODEINFO_MIN_ADDRS]

@[simp] theorem farSpace_peers (ps : List Vpeer) : (farSpace ps).peers = ps :=
  allItems_single farBucket ps

/-- Two nodes of one version. -/
def twoAlike : NodeSpace :=
  farSpace [seenPeer (Block.ofList VTOKEN_LEN [128]) (Block.ofList VTOKEN_LEN [1]),
    seenPeer (Block.ofList VTOKEN_LEN [129]) (Block.ofList VTOKEN_LEN [1])]

theorem twoAlike_inv : twoAlike.Inv :=
  farSpace_inv (seenPeer_ok _ _) (seenPeer_ok _ _) (by decide) (by decide) (by decide)
    (by decide) (by decide)

theorem twoAlike_eligible :
    eligiblePeers twoAlike (Block.ofList VTOKEN_LEN [131]) = twoAlike.peers := by
  unfold eligiblePeers twoAlike
  rw [farSpace_peers]
  rfl

theorem alike_twoAlike : Alike twoAlike.peers := by
  unfold twoAlike
  rw [farSpace_peers]
  intro p hp q hq
  simp only [List.mem_cons, List.not_mem_nil, or_false] at hp hq
  rcases hp with rfl | rfl <;> rcases hq with rfl | rfl <;> exact ⟨rfl, rfl, rfl⟩

/-- The closest of the two. -/
theorem findClosestNodes_spec_two :
    ∃ infos ps, findClosestNodes twoAlike (Block.ofList VTOKEN_LEN [131]) 1 = .ok infos ∧
      (infos.length : Int) = 1 ∧ (∀ p ∈ ps, p ∈ twoAlike.peers) ∧
      List.Forall₂ (Carries twoAlike) ps infos ∧
      ∀ q ∈ twoAlike.peers, q ∉ ps → ∀ p ∈ ps,
        distTo (Block.ofList VTOKEN_LEN [131]) p < distTo (Block.ofList VTOKEN_LEN [131]) q := by
  obtain ⟨infos, ps, hok, hlen, hmem, -, hall, hnear⟩ :=
    findClosestNodes_spec twoAlike twoAlike_inv (Block.ofList VTOKEN_LEN [131]) 1 (by decide)
  rw [twoAlike_eligible] at hlen hmem hnear
  refine ⟨infos, ps, hok, ?_, hmem, hall, (hnear alike_twoAlike).2⟩
  rw [hlen, twoAlike, farSpace_peers]
  rfl

end Vdht.Route
