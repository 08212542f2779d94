import Vdht.Route.Placement
import Vdht.Lib.Extremes

/-!
# The peer that gives way

A node that is new to a full bucket is to replace the worst peer of it: one with the most pings
unanswered, if these are more than three, or else one of the lowest weight, if it is lighter than
the node. `add_node` finds that peer in one scan, which keeps a single candidate for both
criteria, and hands it to `vpeer_update` together with the new node. But `vnodeInfo_merge`, on which
the update rests, leaves a record alone when it is of another node.
-/

namespace Vdht.Route

open NodeId Lib

/-- The peer that the scan of `add_node` wants to give up for `nodei`. -/
def victim (nodei : VnodeInfo) (peers : List Vpeer) : Option Vpeer :=
  (findWorst nodei.id peers 0 nodei.weight.toInt 3 none).2.bind (peers[·]?)

/-- The weight of the node of a peer, as a number. -/
def peerWeight (p : Vpeer) : Int := p.nodei.weight.toInt

/-- The rules in front of `add_node`: the peer with the most unanswered pings if these are more
than three, or else the lightest one if it is lighter than the node. -/
def FollowsRules (nodei : VnodeInfo) (peers : List Vpeer) (choice : Option Vpeer) : Prop :=
  ByRule Vpeer.ntry_pings peerWeight 3 nodei.weight.toInt peers choice

/-- Behind a peer with the most unanswered pings, more than three, there is one with fewer that is
lighter than the node and lighter than the peers before it that did not raise the number of pings;
and none behind it is lighter still. -/
def WorstHidden (nodei : VnodeInfo) (peers : List Vpeer) : Prop :=
  Hidden Vpeer.ntry_pings peerWeight 3 nodei.weight.toInt peers

/-- Equal in the criterion that decides. -/
def SameRank (peers : List Vpeer) (c d : Option Vpeer) : Prop :=
  c.isSome = d.isSome ∧ ∀ v ∈ c, ∀ w ∈ d,
    ((∃ p ∈ peers, 3 < p.ntry_pings) → v.ntry_pings = w.ntry_pings) ∧
    ((∀ p ∈ peers, p.ntry_pings ≤ 3) → v.nodei.weight = w.nodei.weight)

/-! ## The scan -/

/-- The rest of the bucket is scanned with the candidate found so far. -/
theorem findWorst_scan {id : Token} {peers rest : List Vpeer} {start : Nat}
    (hrest : peers.drop start = rest) (hnew : ∀ p ∈ rest, p.nodei.id ≠ id) (minWgt maxTry : Int)
    (want : Option Nat) :
    (findWorst id rest start minWgt maxTry want).1 = false ∧
      (findWorst id rest start minWgt maxTry want).2.bind (peers[·]?) =
        (rest.foldl (scanItem Vpeer.ntry_pings peerWeight)
          ⟨maxTry, minWgt, want.bind (peers[·]?)⟩).pick := by
  induction rest generalizing start minWgt maxTry want with
  | nil => exact ⟨rfl, rfl⟩
  | cons p rest ih =>
    have hne : ¬ vtokenEqual p.nodei.id id = true := fun h =>
      hnew p List.mem_cons_self (vtokenEqual_iff.mp h)
    have hp : peers[start]? = some p := by
      rw [← List.head?_drop, hrest]
      rfl
    have hdrop : peers.drop (start + 1) = rest := by
      rw [← List.drop_drop, hrest]
      rfl
    have hih := @ih (start + 1) hdrop fun q hq => hnew q (List.mem_cons_of_mem _ hq)
    rw [findWorst, if_neg hne, List.foldl_cons]
    unfold scanItem
    by_cases htry : maxTry < p.ntry_pings
    · rw [if_pos htry, if_pos htry, ← hp]
      exact hih minWgt p.ntry_pings (some start)
    · rw [if_neg htry, if_neg htry]
      by_cases hwgt : minWgt > p.nodei.weight.toInt
      · rw [if_pos hwgt, if_pos (show minWgt > peerWeight p from hwgt), ← hp]
        exact hih (peerWeight p) maxTry (some start)
      · rw [if_neg hwgt, if_neg (show ¬ minWgt > peerWeight p from hwgt)]
        exact hih minWgt maxTry want

theorem victim_eq_scan {nodei : VnodeInfo} {peers : List Vpeer}
    (hnew : ∀ p ∈ peers, p.nodei.id ≠ nodei.id) :
    victim nodei peers =
      (scan Vpeer.ntry_pings peerWeight 3 nodei.weight.toInt peers).pick :=
  (findWorst_scan (List.drop_zero (l := peers)) hnew nodei.weight.toInt 3 none).2

/-- The place of the victim. -/
theorem findWorst_of_victim {nodei : VnodeInfo} {peers : List Vpeer} {v : Vpeer}
    (hnew : ∀ p ∈ peers, p.nodei.id ≠ nodei.id) (hv : victim nodei peers = some v) :
    ∃ i, findWorst nodei.id peers 0 nodei.weight.toInt 3 none = (false, some i) ∧
      peers[i]? = some v := by
  obtain ⟨hfound, -⟩ :=
    findWorst_scan (List.drop_zero (l := peers)) hnew nodei.weight.toInt 3 none
  obtain ⟨i, hi, hp⟩ := Option.bind_eq_some_iff.mp hv
  exact ⟨i, Prod.ext hfound hi, hp⟩

theorem weight_eq_of_peerWeight {v w : Vpeer} (h : peerWeight v = peerWeight w) :
    v.nodei.weight = w.nodei.weight := Int32.toInt_inj.mp h

/-- For a node that is not in the bucket, and a bucket of any peers in any order: the scan follows
the rules exactly when no worst peer is hidden by a light one. Two orders of a bucket in which this
is so give up peers of the same rank. -/
theorem victim_rules_iff {nodei : VnodeInfo} {peers : List Vpeer}
    (hnew : ∀ p ∈ peers, p.nodei.id ≠ nodei.id) :
    (FollowsRules nodei peers (victim nodei peers) ↔ ¬ WorstHidden nodei peers) ∧
      ∀ peers' : List Vpeer, peers.Perm peers' → ¬ WorstHidden nodei peers →
        ¬ WorstHidden nodei peers' →
        SameRank peers (victim nodei peers) (victim nodei peers') := by
  have hiff : ∀ {qs : List Vpeer}, (∀ p ∈ qs, p.nodei.id ≠ nodei.id) →
      (FollowsRules nodei qs (victim nodei qs) ↔ ¬ WorstHidden nodei qs) := by
    intro qs hqs
    rw [FollowsRules, victim_eq_scan hqs]
    exact scan_byRule_iff
  refine ⟨hiff hnew, fun peers' hperm hshown hshown' => ?_⟩
  have hnew' : ∀ p ∈ peers', p.nodei.id ≠ nodei.id := fun p hp => hnew p (hperm.mem_iff.mpr hp)
  obtain ⟨hsome, hrank⟩ := ((hiff hnew).mpr hshown).perm ((hiff hnew').mpr hshown') hperm
  refine ⟨hsome, fun v hv w hw => ?_⟩
  obtain ⟨hpings, hweight⟩ := hrank v hv w hw
  exact ⟨hpings, fun hle => weight_eq_of_peerWeight (hweight hle)⟩

/-- The record of a node with one address and a given weight, for concrete buckets. -/
def nodeOf (id : Token) (weight : Int32) : VnodeInfo := { oneAddrNode id with weight := weight }

/-- A peer with a given weight and a number of pings that went unanswered, for concrete buckets. -/
def peerOf (id : Token) (weight : Int32) (pings : Int) : Vpeer where
  conn := vnodeConnSetRaw zeroAddr.addr zeroAddr.addr
  nodei := nodeOf id weight
  tick_ts := 0
  next_tmo := 2
  ntry_pings := pings
  ntry_probes := 0

/-- The id that starts with a byte and is zero from there on. -/
def idOf (b : UInt8) : Token := Block.ofList VTOKEN_LEN [b]

/-- A bucket with one bad peer and a light one in front of it. -/
theorem victim_rules_iff_bad :
    FollowsRules (nodeOf (idOf 3) 3) [peerOf (idOf 1) 1 0, peerOf (idOf 2) 5 4]
        (victim (nodeOf (idOf 3) 3) [peerOf (idOf 1) 1 0, peerOf (idOf 2) 5 4]) ↔
      ¬ WorstHidden (nodeOf (idOf 3) 3) [peerOf (idOf 1) 1 0, peerOf (idOf 2) 5 4] := by
  refine (victim_rules_iff fun p hp => ?_).1
  rcases List.mem_pair.mp hp with rfl | rfl
  · decide
  · decide

/-- The other order: the peer with four unanswered pings stays and the light one is given up. -/
theorem light_peer_hides_bad_one :
    ¬ FollowsRules (nodeOf (idOf 3) 3) [peerOf (idOf 2) 5 4, peerOf (idOf 1) 1 0]
        (victim (nodeOf (idOf 3) 3) [peerOf (idOf 2) 5 4, peerOf (idOf 1) 1 0]) := by
  intro h
  obtain ⟨v, -, hv, hmax⟩ := h.greatest ⟨peerOf (idOf 2) 5 4, List.mem_cons_self, by decide⟩
  have hlight : victim (nodeOf (idOf 3) 3) [peerOf (idOf 2) 5 4, peerOf (idOf 1) 1 0] =
      some (peerOf (idOf 1) 1 0) := rfl
  rw [hlight] at hv
  cases hv
  exact absurd (hmax (peerOf (idOf 2) 5 4) List.mem_cons_self) (by decide)

/-! ## The replacement -/

/-- The node has taken the place of the peer `v`. -/
structure Replaced (space space' : NodeSpace) (nodei : VnodeInfo) (v : Vpeer) : Prop where
  gone : ∀ p ∈ space'.peers, p.nodei.id ≠ v.nodei.id
  stored : ∃ p ∈ (space'.bucket (vnodeIdBucket space.myid nodei.id)).peers,
    p.nodei.id = nodei.id ∧ p.nodei.ver = nodei.ver ∧ p.nodei.used = nodei.used ∧
      p.ntry_pings = 0 ∧ p.ntry_probes = 0 ∧ p.next_tmo = space.init_next_tmo
  sizes : ∀ i, (space'.bucket i).peers.length = (space.bucket i).peers.length
  others : ∀ p ∈ space.peers, p.nodei.id ≠ v.nodei.id → p ∈ space'.peers

/-- The update of a peer with the record of another node changes its timing at most. -/
theorem vpeerUpdate_other {space : NodeSpace} {p : Vpeer} {nodei : VnodeInfo} (flag : AddFlag)
    (now : Int) (hid : p.nodei.id ≠ nodei.id) :
    vpeerUpdate space p nodei flag now = .ok (vpeerTouch space p flag now, 0) := by
  have hmerge : vnodeInfoMerge (vpeerTouch space p flag now).nodei nodei =
      .ok ((vpeerTouch space p flag now).nodei, 0) := by
    rw [vpeerTouch_nodei]
    exact if_pos (by rw [← Bool.not_eq_true, vtokenEqual_iff]; exact hid)
  unfold vpeerUpdate
  dsimp only
  rw [hmerge]
  rfl

/-- What `add_node` does to a full bucket: it touches the victim. -/
theorem addNode_full {space : NodeSpace} {nodei : VnodeInfo} {idx : Fin NBUCKETS} {v : Vpeer}
    (flag : AddFlag) (now : Int) (hidx : vnodeIdBucket space.myid nodei.id = idx)
    (hlocal : nodei.id ≠ space.myid)
    (hnew : ∀ p ∈ (space.bucket idx).peers, p.nodei.id ≠ nodei.id)
    (hfull : space.bucket_sz ≤ (space.bucket idx).peers.length)
    (hv : victim (bumpWeight space nodei) (space.bucket idx).peers = some v) :
    ∃ i, (space.bucket idx).peers[i]? = some v ∧
      addNode space nodei flag now = .ok (space.setBucket idx
        ⟨(space.bucket idx).peers.set i (vpeerTouch space v flag now), (space.bucket idx).ts⟩) := by
  have hbump := bumpWeight_id space nodei
  have hnew' : ∀ p ∈ (space.bucket idx).peers, p.nodei.id ≠ (bumpWeight space nodei).id := by
    rwa [hbump]
  obtain ⟨i, hfind, hi⟩ := findWorst_of_victim hnew' hv
  have hother : v.nodei.id ≠ (bumpWeight space nodei).id := hnew' v (List.mem_of_getElem? hi)
  refine ⟨i, hi, ?_⟩
  have hmy : ¬ vtokenEqual space.myid nodei.id = true := fun h =>
    hlocal (vtokenEqual_iff.mp h).symm
  unfold addNode
  rw [if_neg hmy]
  dsimp only
  rw [hbump, hidx]
  rw [hbump] at hfind
  rw [hfind]
  dsimp only
  rw [if_pos ⟨rfl, hfull⟩, Option.getD_some]
  unfold updatePeer getSlot
  rw [hi]
  dsimp only
  rw [vpeerUpdate_other flag now hother]
  rfl

/-- In no space does a node take the place of a peer of a full bucket, although the scan finds one
that is bad enough: for any node that is neither the own one nor a peer, any flag and any time. The
update of that peer is left undone because the ids differ. -/
theorem full_bucket_never_replaces {space : NodeSpace} {nodei : VnodeInfo} {v : Vpeer}
    (flag : AddFlag) (now : Int) (hlocal : nodei.id ≠ space.myid)
    (hnew : ∀ p ∈ space.peers, p.nodei.id ≠ nodei.id)
    (hfull : space.bucket_sz ≤
      (space.bucket (vnodeIdBucket space.myid nodei.id)).peers.length)
    (hv : victim (bumpWeight space nodei)
      (space.bucket (vnodeIdBucket space.myid nodei.id)).peers = some v) :
    ¬ ∃ space', addNode space nodei flag now = .ok space' ∧ Replaced space space' nodei v := by
  generalize hidx : vnodeIdBucket space.myid nodei.id = idx at hfull hv
  have hnew' : ∀ p ∈ (space.bucket idx).peers, p.nodei.id ≠ nodei.id := fun p hp =>
    hnew p (mem_allItems.mpr ⟨idx, hp⟩)
  obtain ⟨i, hi, hadd⟩ := addNode_full flag now hidx hlocal hnew' hfull hv
  rintro ⟨space', hok, hrep⟩
  rw [hadd] at hok
  cases hok
  have hmem : vpeerTouch space v flag now ∈
      (space.bucket idx).peers.set i (vpeerTouch space v flag now) := by
    apply List.mem_set
    exact (List.getElem?_eq_some_iff.mp hi).1
  refine hrep.gone (vpeerTouch space v flag now) (mem_allItems.mpr ⟨idx, ?_⟩) ?_
  · show _ ∈ (Function.update space.bucket idx _ idx).peers
    rw [Function.update_self]
    exact hmem
  · rw [vpeerTouch_nodei]

/-- A space with room for one peer a bucket, and a peer that left four pings unanswered. -/
def fullSpace : NodeSpace :=
  (nodeSpaceInit zeroAddr.addr 1 10 (idOf 0) (idOf 0)).setBucket
    (vnodeIdBucket (idOf 0) (idOf 3)) ⟨[peerOf (idOf 2) 0 4], 0⟩

theorem fullSpace_bucket (i : Fin NBUCKETS) :
    (fullSpace.bucket i).peers =
      if i = vnodeIdBucket (idOf 0) (idOf 3) then [peerOf (idOf 2) 0 4] else [] := by
  show (Function.update (fun _ => (⟨[], 0⟩ : Bucket)) _ _ i).peers = _
  rw [Function.update_apply]
  split <;> rfl

theorem fullSpace_peers : fullSpace.peers = [peerOf (idOf 2) 0 4] := by
  unfold NodeSpace.peers
  simp only [fullSpace_bucket]
  exact allItems_single _ _

/-- The bad peer answers nothing, and its update by the new node counts as a ping response. -/
theorem full_bucket_never_replaces_bad_peer :
    ¬ ∃ space', addNode fullSpace (nodeOf (idOf 3) 0) .byPingRsp 9 = .ok space' ∧
      Replaced fullSpace space' (nodeOf (idOf 3) 0) (peerOf (idOf 2) 0 4) := by
  refine full_bucket_never_replaces .byPingRsp 9 (by decide) ?_ ?_ ?_
  · rw [fullSpace_peers]
    intro p hp
    rw [List.mem_singleton.mp hp]
    decide
  · rw [fullSpace_bucket]
    exact Nat.le_refl _
  · rw [fullSpace_bucket]
    rfl

/-- The new node is not in its bucket afterwards. -/
theorem new_node_not_stored :
    ¬ ∃ space', addNode fullSpace (nodeOf (idOf 3) 0) .byOther 9 = .ok space' ∧
      Replaced fullSpace space' (nodeOf (idOf 3) 0) (peerOf (idOf 2) 0 4) := by
  rintro ⟨space', hok, hrep⟩
  have hsame : addNode fullSpace (nodeOf (idOf 3) 0) .byOther 9 =
      .ok (fullSpace.setBucket (vnodeIdBucket (idOf 0) (idOf 3)) ⟨[peerOf (idOf 2) 0 4], 0⟩) := rfl
  rw [hsame] at hok
  cases hok
  obtain ⟨p, hp, hid, -⟩ := hrep.stored
  change p ∈ (Function.update fullSpace.bucket (vnodeIdBucket (idOf 0) (idOf 3)) _
    (vnodeIdBucket (idOf 0) (idOf 3))).peers at hp
  rw [Function.update_self] at hp
  rw [List.mem_singleton.mp hp] at hid
  exact absurd hid (by decide)

end Vdht.Route
