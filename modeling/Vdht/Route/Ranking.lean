import Vdht.Route.Closest

/-!
# When the ranking is a total order

The comparator of `find_closest_nodes` tests the unanswered pings in one direction only, treats
every difference of version as worse and lets a greater weight win before the distance. Whether
it is a consistent order therefore depends on the peers. On peers of one version whose weights
do not contradict pings and distance it orders by pings, then distance; on all others two calls
with exchanged arguments contradict each other, and the result of a search depends on the order
in which the peers are stored.
-/

namespace Vdht.Route

open NodeId Lib Utils

/-- The peers run one version, among peers with equally many unanswered pings a heavier one is
nearer, and a peer with fewer unanswered pings is heavier or nearer. -/
structure PairAgrees (targetId : Token) (p q : Vpeer) : Prop where
  ver : p.nodei.ver = q.nodei.ver
  weight : p.ntry_pings = q.ntry_pings → p.nodei.weight.toInt < q.nodei.weight.toInt →
    distTo targetId q < distTo targetId p
  pings : p.ntry_pings < q.ntry_pings →
    q.nodei.weight.toInt < p.nodei.weight.toInt ∨ distTo targetId p < distTo targetId q

def FieldsAgree (targetId : Token) (ps : List Vpeer) : Prop :=
  ∀ p ∈ ps, ∀ q ∈ ps, p ≠ q → PairAgrees targetId p q

variable {targetId : Token}

/-! ## The order of agreeing peers -/

/-- Pings first, then distance. -/
theorem weightCmp_agree {p q : Vpeer} (hpq : PairAgrees targetId p q)
    (hqp : PairAgrees targetId q p) :
    weightCmp targetId p q =
      if p.ntry_pings < q.ntry_pings then -1
      else if q.ntry_pings < p.ntry_pings then 1
      else if distTo targetId q < distTo targetId p then 1
      else if distTo targetId p < distTo targetId q then -1
      else 0 := by
  have hver := hpq.ver
  have hw := hpq.weight
  have hw' := hqp.weight
  have hpings := hqp.pings
  rw [weightCmp_eq]
  by_cases hlt : p.ntry_pings < q.ntry_pings
  · rw [if_pos hlt, if_pos hlt]
  · rw [if_neg (by omega), if_neg (by simp [hver]), if_neg hlt]
    by_cases hgt : q.ntry_pings < p.ntry_pings
    · rw [if_pos hgt]
      rcases hpings hgt with h | h
      · rw [if_pos h]
      · rw [if_pos h]
        split <;> rfl
    · rw [if_neg hgt]
      by_cases hheavy : p.nodei.weight.toInt < q.nodei.weight.toInt
      · rw [if_pos hheavy, if_pos (hw (by omega) hheavy)]
      · rw [if_neg (by omega)]

theorem weightCmp_self (p : Vpeer) : weightCmp targetId p p = 0 := by
  rw [weightCmp_eq, if_neg (by omega), if_neg (by simp), if_neg (by omega), if_neg (by omega),
    if_neg (by omega)]

/-- Two agreeing peers are compared by pings and distance, also when they are the same peer. -/
theorem weightCmp_of_fieldsAgree {ps : List Vpeer} (h : FieldsAgree targetId ps) {p q : Vpeer}
    (hp : p ∈ ps) (hq : q ∈ ps) :
    weightCmp targetId p q =
      if p.ntry_pings < q.ntry_pings then -1
      else if q.ntry_pings < p.ntry_pings then 1
      else if distTo targetId q < distTo targetId p then 1
      else if distTo targetId p < distTo targetId q then -1
      else 0 := by
  by_cases hpq : p = q
  · subst hpq
    rw [weightCmp_self]
    simp
  · exact weightCmp_agree (h p hp q hq hpq) (h q hq p hp (Ne.symm hpq))

theorem threeWay_of_fieldsAgree {ps : List Vpeer} (h : FieldsAgree targetId ps) :
    ThreeWay (weightCmp targetId) ps where
  antisymm := by
    intro p hp q hq
    rw [weightCmp_of_fieldsAgree h hp hq, weightCmp_of_fieldsAgree h hq hp]
    split
    · rw [if_neg (by omega)]
    · split
      · rfl
      · split <;> split <;> omega
  trans := by
    intro p hp q hq r hr hpq hqr
    rw [weightCmp_of_fieldsAgree h hp hq] at hpq
    rw [weightCmp_of_fieldsAgree h hq hr] at hqr
    rw [weightCmp_of_fieldsAgree h hp hr]
    have hpings : p.ntry_pings ≤ q.ntry_pings ∧ q.ntry_pings ≤ r.ntry_pings := by
      constructor <;> omega
    split
    · omega
    · have heq : p.ntry_pings = q.ntry_pings ∧ q.ntry_pings = r.ntry_pings := by omega
      have hd : ¬ distTo targetId q < distTo targetId p := by omega
      have hd' : ¬ distTo targetId r < distTo targetId q := by omega
      rw [if_neg (by omega), if_neg (by omega)]
      split <;> omega

theorem totalOrderOn_of_fieldsAgree {space : NodeSpace} (hs : space.Placed)
    (h : FieldsAgree targetId (eligiblePeers space targetId)) :
    TotalOrderOn (weightCmp targetId) (eligiblePeers space targetId) where
  toThreeWay := threeWay_of_fieldsAgree h
  eq_of_zero := by
    intro p hp q hq hzero
    rw [weightCmp_of_fieldsAgree h hp hq] at hzero
    apply peer_eq_of_dist hs hp hq
    omega

/-! ## Disagreeing peers -/

/-- Where the two comparisons of a pair are opposite, the pair agrees. -/
theorem pairAgrees_of_antisymm {p q : Vpeer}
    (h : weightCmp targetId p q = -weightCmp targetId q p) : PairAgrees targetId p q := by
  rw [weightCmp_eq, weightCmp_eq] at h
  have hver : p.nodei.ver = q.nodei.ver := by
    by_contra hne
    rw [if_pos (show q.nodei.ver ≠ p.nodei.ver from fun e => hne e.symm),
      if_pos (show p.nodei.ver ≠ q.nodei.ver from hne)] at h
    simp at h
  rw [if_neg (show ¬ q.nodei.ver ≠ p.nodei.ver from fun e => e hver.symm),
    if_neg (show ¬ p.nodei.ver ≠ q.nodei.ver from fun e => e hver)] at h
  refine ⟨hver, ?_, ?_⟩
  · intro hpings hw
    omega
  · intro hpings
    omega

theorem fieldsAgree_of_totalOrderOn {ps : List Vpeer}
    (h : TotalOrderOn (weightCmp targetId) ps) : FieldsAgree targetId ps :=
  fun p hp q hq _ => pairAgrees_of_antisymm (h.antisymm p hp q hq)

/-! ## Permuted buckets -/

/-- The space with its peers stored in another order. -/
def NodeSpace.withBuckets (space : NodeSpace) (bucket : Fin NBUCKETS → Bucket) : NodeSpace :=
  { space with bucket := bucket }

theorem eligiblePeers_perm {space : NodeSpace} {bucket : Fin NBUCKETS → Bucket}
    (h : ∀ i, (bucket i).peers.Perm (space.bucket i).peers) :
    (eligiblePeers (space.withBuckets bucket) targetId).Perm (eligiblePeers space targetId) :=
  (allItems_perm h).filter _

theorem copyRanked_withBuckets (space : NodeSpace) (bucket : Fin NBUCKETS → Bucket)
    (ps : List Vpeer) (num : Nat) :
    copyRanked (space.withBuckets bucket) ps num = copyRanked space ps num := by
  induction ps generalizing num with
  | nil => rfl
  | cons p ps ih =>
    cases num with
    | zero => rfl
    | succ num =>
      unfold copyRanked
      rw [ih]
      rfl

theorem findClosestNodes_withBuckets {space : NodeSpace}
    (h : TotalOrderOn (weightCmp targetId) (eligiblePeers space targetId))
    {bucket : Fin NBUCKETS → Bucket} (hb : ∀ i, (bucket i).peers.Perm (space.bucket i).peers)
    (num : Int) :
    findClosestNodes (space.withBuckets bucket) targetId num =
      findClosestNodes space targetId num := by
  unfold findClosestNodes
  rw [rank_eq_of_perm h (eligiblePeers_perm hb), copyRanked_withBuckets]

/-- In a placed space, for every target: the ranking is a total order on the eligible peers, and
every search has the same result however the peers stand inside their buckets, if and only if the
fields of the eligible peers agree that the ranking looks at before their ids. -/
theorem findClosestNodes_order_iff (space : NodeSpace) (hs : space.Placed) (targetId : Token) :
    (TotalOrderOn (weightCmp targetId) (eligiblePeers space targetId) ∧
      ∀ bucket : Fin NBUCKETS → Bucket, (∀ i, (bucket i).peers.Perm (space.bucket i).peers) →
        ∀ num, findClosestNodes (space.withBuckets bucket) targetId num =
          findClosestNodes space targetId num) ↔
      FieldsAgree targetId (eligiblePeers space targetId) := by
  constructor
  · intro h
    exact fieldsAgree_of_totalOrderOn h.1
  · intro h
    have htotal := totalOrderOn_of_fieldsAgree hs h
    exact ⟨htotal, fun bucket hb num => findClosestNodes_withBuckets htotal hb num⟩

/-- With one version, no unanswered pings and one weight the order is total. -/
theorem findClosestNodes_order_iff_alike :
    TotalOrderOn (weightCmp (Block.ofList VTOKEN_LEN [131])) twoAlike.peers ∧
      ∀ bucket : Fin NBUCKETS → Bucket, (∀ i, (bucket i).peers.Perm (twoAlike.bucket i).peers) →
        ∀ num, findClosestNodes (twoAlike.withBuckets bucket) (Block.ofList VTOKEN_LEN [131]) num =
          findClosestNodes twoAlike (Block.ofList VTOKEN_LEN [131]) num := by
  have h := (findClosestNodes_order_iff twoAlike twoAlike_inv.placed
    (Block.ofList VTOKEN_LEN [131])).mpr
  rw [twoAlike_eligible] at h
  apply h
  intro p hp q hq _
  obtain ⟨hpings, hver, hweight⟩ := alike_twoAlike p hp q hq
  exact ⟨hver, fun _ hw => by rw [hweight] at hw; omega, fun hlt => by omega⟩

/-! ## Two versions -/

/-- A peer of version 1 and one of version 2, stored in this order. -/
def oldPeer : Vpeer := seenPeer (Block.ofList VTOKEN_LEN [128]) (Block.ofList VTOKEN_LEN [1])

def newPeer : Vpeer := seenPeer (Block.ofList VTOKEN_LEN [129]) (Block.ofList VTOKEN_LEN [2])

/-- The first record of a search for one node carries the first peer of the ranking. -/
theorem findClosestNodes_first (targetId : Token) {ps : List Vpeer} (hps : ∀ p ∈ ps, PeerOk p)
    (p : Vpeer) (rest : List Vpeer)
    (hrank : rank (weightCmp targetId) (eligiblePeers (farSpace ps) targetId) = p :: rest) :
    ∃ n, findClosestNodes (farSpace ps) targetId 1 = .ok [n] ∧ n.id = p.nodei.id := by
  have hmem : ∀ q ∈ p :: rest, PeerOk q := by
    intro q hq
    rw [← hrank, (rank_perm _).mem_iff, eligiblePeers, farSpace_peers] at hq
    exact hps q (List.mem_of_mem_filter hq)
  obtain ⟨infos, hinfos, hall⟩ := @copyRanked_ok (farSpace ps) _ hmem 1
  rw [List.take_succ_cons, List.take_zero] at hall
  cases hall with
  | cons hcar hnil =>
    cases hnil
    exact ⟨_, by rw [findClosestNodes, if_neg (by decide), hrank]; exact hinfos, hcar.id⟩

/-- Exchanging the two peers exchanges the answer to a search for one node. -/
theorem findClosestNodes_order_two_versions :
    (farSpace [oldPeer, newPeer]).Inv ∧
      (∀ i, ((farSpace [newPeer, oldPeer]).bucket i).peers.Perm
        ((farSpace [oldPeer, newPeer]).bucket i).peers) ∧
      findClosestNodes
          ((farSpace [oldPeer, newPeer]).withBuckets (farSpace [newPeer, oldPeer]).bucket)
          (Block.ofList VTOKEN_LEN [131]) 1 ≠
        findClosestNodes (farSpace [oldPeer, newPeer]) (Block.ofList VTOKEN_LEN [131]) 1 := by
  have hold : PeerOk oldPeer := seenPeer_ok _ _
  have hnew : PeerOk newPeer := seenPeer_ok _ _
  refine ⟨?_, ?_, ?_⟩
  · exact farSpace_inv hold hnew (by decide) (by decide) (by decide) (by decide) (by decide)
  · intro i
    unfold farSpace
    dsimp only
    split
    · exact List.Perm.swap oldPeer newPeer []
    · exact List.Perm.refl _
  · obtain ⟨n, hn, hnid⟩ := findClosestNodes_first (Block.ofList VTOKEN_LEN [131])
      (by simp [hold, hnew] : ∀ p ∈ [oldPeer, newPeer], PeerOk p) oldPeer [newPeer]
      (by rw [eligiblePeers, farSpace_peers]; rfl)
    obtain ⟨m, hm, hmid⟩ := findClosestNodes_first (Block.ofList VTOKEN_LEN [131])
      (by simp [hold, hnew] : ∀ p ∈ [newPeer, oldPeer], PeerOk p) newPeer [oldPeer]
      (by rw [eligiblePeers, farSpace_peers]; rfl)
    intro heq
    have hsame : (.ok [m] : Res (List VnodeInfo)) = .ok [n] := hm.symm.trans (heq.trans hn)
    have hids : newPeer.nodei.id = oldPeer.nodei.id := by
      rw [← hmid, ← hnid]
      cases hsame
      rfl
    exact absurd hids (by decide)

end Vdht.Route
