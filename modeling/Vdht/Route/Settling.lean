import Vdht.Lib.Least
import Vdht.Route.Probes

/-!
# Settling a connection

The response to a probe offers a connection for the peer, and the peer takes it unless its priority
is greater than that of the present one. Until the node info of the peer is updated, the last of the
best connections offered is the one that stays.
-/

namespace Vdht.Route

open NodeId Lib

variable {space s : NodeSpace} {id : Token} {p : Vpeer} {op : Int × SpaceOp}
  {ops : List (Int × SpaceOp)}

/-- A connection offered for the node, or an operation that brings no node info. -/
def Delivers (id : Token) : SpaceOp → Prop
  | .adjustConnectivity targetId _ => targetId = id
  | .kickNode _ => True
  | .probeConnectivity _ => True
  | .tick _ => True
  | _ => False

/-- The connection that an operation offers to a peer, where it offers one. -/
def offer : SpaceOp → Option VnodeConn
  | .adjustConnectivity _ conn => some conn
  | _ => none

/-- The connections that are offered, in order. -/
def offers (ops : List (Int × SpaceOp)) : List VnodeConn := ops.filterMap fun op => offer op.2

/-- The part of a peer that a probe can change together with the record that says where it may be
reached. -/
def Vpeer.link (p : Vpeer) : VnodeInfo × VnodeConn := (p.nodei, p.conn)

/-- What a bucket shows of its peers. -/
def NodeSpace.links (space : NodeSpace) (i : Fin NBUCKETS) : List (VnodeInfo × VnodeConn) :=
  (space.bucket i).peers.map Vpeer.link

/-- The peers of the node settle the connections offered. -/
def settleLink (id : Token) (conns : List VnodeConn) (l : VnodeInfo × VnodeConn) :
    VnodeInfo × VnodeConn :=
  if l.1.id = id then (l.1, conns.foldl vnodeConnAdjust l.2) else l

theorem settleLink_nil (id : Token) (l : VnodeInfo × VnodeConn) : settleLink id [] l = l := by
  unfold settleLink
  split
  · rfl
  · rfl

theorem settleLink_append (id : Token) (conns conns' : List VnodeConn)
    (l : VnodeInfo × VnodeConn) :
    settleLink id conns' (settleLink id conns l) = settleLink id (conns ++ conns') l := by
  unfold settleLink
  by_cases hid : l.1.id = id
  · rw [if_pos hid, if_pos hid, if_pos hid, List.foldl_append]
  · rw [if_neg hid, if_neg hid, if_neg hid]

/-! ## One operation -/

theorem onPeer_eq_map {f : Vpeer → Vpeer} {ps : List Vpeer}
    (hnodup : (ps.map fun p => p.nodei.id).Nodup) :
    onPeer id f ps = ps.map fun p => if p.nodei.id = id then f p else p := by
  induction ps with
  | nil => rfl
  | cons p ps ih =>
    obtain ⟨hnew, hnodup⟩ := List.nodup_cons.mp hnodup
    rw [onPeer, List.map_cons, ih hnodup]
    by_cases hid : p.nodei.id = id
    · rw [if_pos (vtokenEqual_iff.mpr hid), if_pos hid]
      have hrest : (ps.map fun p => if p.nodei.id = id then f p else p) = ps := by
        refine (List.map_congr_left fun q hq => ?_).trans (List.map_id ps)
        have hne : q.nodei.id ≠ id := by
          intro hq'
          exact hnew (List.mem_map.mpr ⟨q, hq, hq'.trans hid.symm⟩)
        exact if_neg hne
      rw [hrest]
    · rw [if_neg (mt vtokenEqual_iff.mp hid), if_neg hid]

/-- The links of a bucket whose peers were changed. -/
theorem setBucket_links (space : NodeSpace) (idx i : Fin NBUCKETS) (b : Bucket) :
    (space.setBucket idx b).links i =
      if i = idx then b.peers.map Vpeer.link else space.links i := by
  rw [NodeSpace.links, setBucket_bucket]
  split
  · rfl
  · rfl

theorem settleLink_elsewhere (h : space.Inv) {i : Fin NBUCKETS}
    (hi : i ≠ vnodeIdBucket space.myid id) (conns : List VnodeConn) :
    (space.links i).map (settleLink id conns) = space.links i := by
  refine (List.map_congr_left fun l hl => ?_).trans (List.map_id _)
  obtain ⟨p, hp, rfl⟩ := List.mem_map.mp hl
  have hne : p.nodei.id ≠ id := by
    intro hid
    apply hi
    rw [← hid, (h i).ok.placed p hp]
  exact if_neg hne

theorem adjustConnectivity_links (h : space.Inv) (id : Token) (conn : VnodeConn)
    (i : Fin NBUCKETS) :
    (adjustConnectivity space id conn).links i = (space.links i).map (settleLink id [conn]) := by
  rw [adjustConnectivity, setBucket_links]
  by_cases hi : i = vnodeIdBucket space.myid id
  · subst hi
    rw [if_pos rfl, onPeer_eq_map (h _).ok.nodup, NodeSpace.links, List.map_map, List.map_map]
    apply List.map_congr_left
    intro p _
    show Vpeer.link (if p.nodei.id = id then _ else p) = settleLink id [conn] p.link
    unfold settleLink
    split
    · rename_i hid
      rw [if_pos (show p.link.1.id = id from hid)]
      rfl
    · rename_i hid
      rw [if_neg (show ¬ p.link.1.id = id from hid)]
  · rw [if_neg hi, settleLink_elsewhere h hi]

theorem kickNode_links (h : space.Inv) (kicked : Token) (now : Int) (i : Fin NBUCKETS) :
    (kickNode space kicked now).1.links i = space.links i := by
  rw [kickNode, setBucket_links]
  split
  · rename_i hi
    rw [onPeer_eq_map (h _).ok.nodup, List.map_map, NodeSpace.links, hi]
    apply List.map_congr_left
    intro p _
    show Vpeer.link (if p.nodei.id = kicked then _ else p) = p.link
    split
    · rfl
    · rfl
  · rfl

/-- What an operation that brings no node info does to the links. -/
theorem spaceExec_links (h : space.Inv) (hop : Delivers id op.2) (hexec : spaceExec space op = .ok s)
    (i : Fin NBUCKETS) : s.links i = (space.links i).map (settleLink id (offers [op])) := by
  have hsame : ∀ l : List (VnodeInfo × VnodeConn), l.map (settleLink id []) = l := fun l =>
    (List.map_congr_left fun x _ => settleLink_nil id x).trans (List.map_id l)
  obtain ⟨now, op⟩ := op
  cases op with
  | addNode nodei flag => cases hop
  | kickNode kicked =>
    cases hexec
    exact (kickNode_links h kicked now i).trans (hsame _).symm
  | adjustConnectivity target conn =>
    cases hexec
    obtain rfl : target = id := hop
    exact adjustConnectivity_links h target conn i
  | probeConnectivity laddr =>
    obtain ⟨t, ht, -, hbucket⟩ := probeConnectivity_eq h laddr
    obtain ⟨⟨s', calls⟩, hs', rfl⟩ := map_ok hexec
    rw [ht] at hs'
    cases hs'
    refine Eq.trans ?_ (hsame _).symm
    rw [NodeSpace.links, NodeSpace.links, hbucket, List.map_map]
    apply List.map_congr_left
    intro p _
    show (probedPeer space p).link = p.link
    unfold probedPeer
    split
    · rfl
    · rfl
  | tick rand =>
    obtain ⟨⟨s', calls⟩, hs', rfl⟩ := map_ok hexec
    have hpeers := (everyBucket_rel
      (R := fun b b' => b'.peers = b.peers.map fun p => (pingPeer space now p).1)
      (fun _ _ _ _ hb => tickBucket_peers hb) hs').2 i
    refine Eq.trans ?_ (hsame _).symm
    rw [NodeSpace.links, NodeSpace.links, hpeers, List.map_map]
    apply List.map_congr_left
    intro p _
    show ((pingPeer space now p).1.nodei, (pingPeer space now p).1.conn) = p.link
    rw [pingPeer_nodei, pingPeer_conn]
    rfl
  | clear => cases hop

/-! ## Runs -/

theorem Delivers.admissible {op : SpaceOp} (h : Delivers id op) : op.Admissible := by
  cases op with
  | addNode nodei flag => cases h
  | _ => trivial

theorem run_links (h : space.Inv) (hops : ∀ op ∈ ops, Delivers id op.2) :
    ∃ s, run spaceExec space ops = .ok s ∧ s.Inv ∧
      ∀ i, s.links i = (space.links i).map (settleLink id (offers ops)) := by
  induction ops generalizing space with
  | nil =>
    refine ⟨space, rfl, h, fun i => ?_⟩
    exact ((List.map_congr_left fun x _ => settleLink_nil id x).trans (List.map_id _)).symm
  | cons op ops ih =>
    obtain ⟨hop, hops⟩ := List.forall_mem_cons.mp hops
    obtain ⟨m, hm, hinv⟩ := spaceExec_ok h op hop.admissible
    obtain ⟨s, hs, hinv', hlinks⟩ := ih hinv hops
    refine ⟨s, run_cons_ok.mpr ⟨m, hm, hs⟩, hinv', fun i => ?_⟩
    have hoffers : offers (op :: ops) = offers [op] ++ offers ops := by
      rw [← List.singleton_append, offers, List.filterMap_append]
      rfl
    rw [hlinks, spaceExec_links h hop hm, List.map_map, hoffers]
    exact List.map_congr_left fun l _ => settleLink_append id _ _ l

theorem settleLink_fst (id : Token) (conns : List VnodeConn) (l : VnodeInfo × VnodeConn) :
    (settleLink id conns l).1 = l.1 := by
  unfold settleLink
  split
  · rfl
  · rfl

theorem settleLink_lastLeast (conns : List VnodeConn) (hid : p.nodei.id = id) :
    LastLeast VnodeConn.priority (p.conn :: conns) (settleLink id conns p.link).2 := by
  rw [settleLink, if_pos (show p.link.1.id = id from hid)]
  exact LastLeast.foldl VnodeConn.priority p.conn conns

/-- The peers before and after a run, by their links. -/
theorem peers_of_links (hlinks : ∀ i, s.links i = (space.links i).map (settleLink id (offers ops))) :
    (∀ p ∈ space.peers, ∃ q ∈ s.peers, q.link = settleLink id (offers ops) p.link) ∧
      ∀ q ∈ s.peers, ∃ p ∈ space.peers, q.link = settleLink id (offers ops) p.link := by
  constructor
  · intro p hp
    obtain ⟨i, hi⟩ := mem_allItems.mp hp
    have hmem : settleLink id (offers ops) p.link ∈ s.links i := by
      rw [hlinks]
      exact List.mem_map_of_mem (List.mem_map_of_mem hi)
    obtain ⟨q, hq, hlink⟩ := List.mem_map.mp hmem
    exact ⟨q, mem_peers_of_bucket hq, hlink⟩
  · intro q hq
    obtain ⟨i, hi⟩ := mem_allItems.mp hq
    have hmem : q.link ∈ s.links i := List.mem_map_of_mem hi
    rw [hlinks] at hmem
    obtain ⟨l, hl, hlq⟩ := List.mem_map.mp hmem
    obtain ⟨p, hp, rfl⟩ := List.mem_map.mp hl
    exact ⟨p, mem_peers_of_bucket hp, hlq.symm⟩

/-- Whatever connections are offered to a node, and whatever is kicked, probed and pinged in
between, its peer ends up with the last of the connections of least priority among its own and those
offered. The order of the offers does not matter to the priority, and no other connection changes. -/
theorem connection_settles (h : space.Inv) (hops : ∀ op ∈ ops, Delivers id op.2) :
    ∃ s, run spaceExec space ops = .ok s ∧
      (∀ p ∈ space.peers, ∃ q ∈ s.peers, q.nodei = p.nodei ∧
        (p.nodei.id = id → LastLeast VnodeConn.priority (p.conn :: offers ops) q.conn) ∧
        (p.nodei.id ≠ id → q.conn = p.conn)) ∧
      (∀ q ∈ s.peers, ∃ p ∈ space.peers, q.nodei = p.nodei) ∧
      ∀ ops' s', (∀ op ∈ ops', Delivers id op.2) → (offers ops').Perm (offers ops) →
        run spaceExec space ops' = .ok s' → ∀ q ∈ s.peers, ∀ q' ∈ s'.peers,
          q.nodei.id = id → q'.nodei.id = id → q'.conn.priority = q.conn.priority := by
  obtain ⟨s, hs, -, hlinks⟩ := run_links h hops
  obtain ⟨hforth, hback⟩ := peers_of_links hlinks
  refine ⟨s, hs, fun p hp => ?_, fun q hq => ?_, ?_⟩
  · obtain ⟨q, hq, hlink⟩ := hforth p hp
    have hnodei : q.nodei = p.nodei := (congrArg Prod.fst hlink).trans (settleLink_fst _ _ _)
    refine ⟨q, hq, hnodei, fun hid => ?_, fun hid => ?_⟩
    · have hleast := settleLink_lastLeast (offers ops) hid
      rwa [← hlink] at hleast
    · rw [settleLink, if_neg (show ¬ p.link.1.id = id from hid)] at hlink
      exact congrArg Prod.snd hlink
  · obtain ⟨p, hp, hlink⟩ := hback q hq
    exact ⟨p, hp, (congrArg Prod.fst hlink).trans (settleLink_fst _ _ _)⟩
  · intro ops' s' hops' hperm hs' q hq q' hq' hid hid'
    obtain ⟨t, ht, -, hlinks'⟩ := run_links h hops'
    obtain rfl : s' = t := Except.ok.inj (hs'.symm.trans ht)
    obtain ⟨p, hp, hlink⟩ := hback q hq
    obtain ⟨p', hp', hlink'⟩ := (peers_of_links hlinks').2 q' hq'
    have hpid : p.nodei.id = id := by
      rw [← hid, show q.nodei = p.nodei from (congrArg Prod.fst hlink).trans (settleLink_fst _ _ _)]
    have hpid' : p'.nodei.id = id := by
      rw [← hid',
        show q'.nodei = p'.nodei from (congrArg Prod.fst hlink').trans (settleLink_fst _ _ _)]
    obtain rfl : p' = p :=
      List.inj_on_of_nodup_map h.placed.distinct hp' hp (hpid'.trans hpid.symm)
    have hleast := settleLink_lastLeast (offers ops) hpid
    have hleast' := settleLink_lastLeast (offers ops') hpid
    rw [← hlink] at hleast
    rw [← hlink'] at hleast'
    exact hleast'.perm hleast (hperm.cons p'.conn)

/-- Two connections of one priority are offered, with a worse one between them. -/
theorem connection_settles_tie :
    ∃ space s, addNode freshSpace twoAddrNode .byOther 0 = .ok space ∧
      run spaceExec space
        [(1, .adjustConnectivity twoAddrNode.id ⟨3, portAddr 1, portAddr 1⟩),
          (2, .kickNode twoAddrNode.id),
          (3, .adjustConnectivity twoAddrNode.id ⟨9, portAddr 1, portAddr 2⟩),
          (4, .adjustConnectivity twoAddrNode.id ⟨3, portAddr 1, portAddr 3⟩)] = .ok s ∧
      ∀ q ∈ s.peers, ∃ p ∈ space.peers, q.nodei = p.nodei := by
  obtain ⟨space, hspace, hinv⟩ := addNode_ok (inv_init _ _ _ _ _) twoAddrNode_wellFormed .byOther 0
  obtain ⟨s, hs, -, hsame, -⟩ := @connection_settles _ twoAddrNode.id
    [(1, .adjustConnectivity twoAddrNode.id ⟨3, portAddr 1, portAddr 1⟩),
      (2, .kickNode twoAddrNode.id),
      (3, .adjustConnectivity twoAddrNode.id ⟨9, portAddr 1, portAddr 2⟩),
      (4, .adjustConnectivity twoAddrNode.id ⟨3, portAddr 1, portAddr 3⟩)] hinv fun op hop => by
    simp only [List.mem_cons, List.not_mem_nil, or_false] at hop
    rcases hop with rfl | rfl | rfl | rfl
    · exact rfl
    · trivial
    · exact rfl
    · exact rfl
  exact ⟨space, s, hspace, hs, hsame⟩

end Vdht.Route
