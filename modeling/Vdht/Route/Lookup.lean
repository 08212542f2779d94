import Vdht.NodeId.Order
import Vdht.Route.Peers

/-!
# Finding a node that was added

A node goes through two copies on its way into the space and out of it. The first one sorts its
addresses, and its weight is raised when it runs the own version; on the way out the weight is
lowered again by the same comparison. A node that is not announced again is found as it was added.
-/

namespace Vdht.Route

open NodeId Lib

variable {space s t : NodeSpace} {n : VnodeInfo} {id : Token} {op : Int × SpaceOp}
  {ops : List (Int × SpaceOp)}

/-- The same node with the same version, weight and addresses. -/
structure SameInfo (d n : VnodeInfo) : Prop where
  header : SameHeader d n
  used : d.used = n.used

theorem SameInfo.trans {d m : VnodeInfo} (h : SameInfo d m) (h' : SameInfo m n) : SameInfo d n := by
  obtain ⟨⟨hid, hver, hweight⟩, hused⟩ := h
  obtain ⟨⟨hid', hver', hweight'⟩, hused'⟩ := h'
  exact ⟨⟨hid.trans hid', hver.trans hver', hweight.trans hweight'⟩, hused.trans hused'⟩

/-- One to twelve different addresses in the order of their base types. -/
structure Addable (n : VnodeInfo) : Prop extends n.WellFormed where
  distinct : DistinctAddrs n.used
  sorted : SortedBy baseType n.used

/-- Neither a node is added nor the space cleared. -/
def KeepsNodes : SpaceOp → Prop
  | .addNode _ _ => False
  | .clear => False
  | _ => True

/-- The node infos of a bucket. -/
def NodeSpace.records (space : NodeSpace) (i : Fin NBUCKETS) : List VnodeInfo :=
  (space.bucket i).peers.map (·.nodei)

/-! ## Copies -/

/-- Addresses that are in order are copied as they are. -/
theorem vnodeInfoCopy_same {dest : VnodeInfo} (hdest : dest.Fitting) (hmax : n.naddrs ≤ MAX_ADDRS)
    (hstored : n.naddrs ≤ n.addrs.length) (hd : DistinctAddrs n.used)
    (hs : SortedBy baseType n.used) :
    ∃ d r, vnodeInfoCopy dest n = .ok (d, r) ∧ d.Sound ∧ SameInfo d n := by
  obtain ⟨d, r, hcopy, -, hsound, hid, hver, hweight, hused⟩ := vnodeInfoCopy_ok hdest hmax hstored
  refine ⟨d, r, hcopy, hsound, ⟨hid, hver, hweight⟩, ?_⟩
  rw [hused, putAddrs_eq_stableSort hd, stableSort_of_sorted hs]

theorem bumpWeight_ver (space : NodeSpace) (n : VnodeInfo) : (bumpWeight space n).ver = n.ver := by
  unfold bumpWeight
  split <;> rfl

theorem bumpWeight_addable (space : NodeSpace) (h : Addable n) : Addable (bumpWeight space n) := by
  unfold bumpWeight
  split
  · exact ⟨⟨h.pos, h.le_max, h.stored⟩, h.distinct, h.sorted⟩
  · exact h

/-- The weight is taken off again in every space of the same version. -/
theorem dropWeight_bumpWeight {d : VnodeInfo} (hver : t.myver = space.myver)
    (h : SameInfo d (bumpWeight space n)) : SameInfo (dropWeight t d) n := by
  obtain ⟨⟨hid, hdver, hweight⟩, hused⟩ := h
  rw [bumpWeight_id] at hid
  rw [bumpWeight_ver] at hdver
  unfold bumpWeight at hweight hused
  unfold dropWeight
  by_cases hsame : space.myver = n.ver
  · rw [if_pos (vtokenEqual_iff.mpr hsame)] at hweight hused
    rw [if_pos (vtokenEqual_iff.mpr (by rw [hdver, hver, hsame]))]
    refine ⟨⟨hid, hdver, ?_⟩, hused⟩
    show d.weight - 1 = n.weight
    rw [hweight]
    exact Int32.add_sub_cancel _ _
  · have hnot : ¬ vtokenEqual space.myver n.ver = true := mt vtokenEqual_iff.mp hsame
    have hnot' : ¬ vtokenEqual d.ver t.myver = true := by
      rw [vtokenEqual_iff, hdver, hver]
      exact fun heq => hsame heq.symm
    rw [if_neg hnot] at hweight hused
    rw [if_neg hnot']
    exact ⟨⟨hid, hdver, hweight⟩, hused⟩

/-! ## Finding -/

/-- The search only looks at node infos. -/
theorem findNode_eq (space : NodeSpace) (id : Token) (dest : VnodeInfo) :
    findNode space id dest =
      ((space.records (vnodeIdBucket space.myid id)).find? fun n => vtokenEqual n.id id).elim
        (.ok none) fun n => (vnodeInfoCopy dest n).map fun r => some (dropWeight space r.1) := by
  unfold findNode NodeSpace.records
  rw [List.find?_map]
  dsimp only [Function.comp_def]
  cases (space.bucket (vnodeIdBucket space.myid id)).peers.find? fun p =>
      vtokenEqual p.nodei.id id with
  | none => rfl
  | some p =>
    dsimp only [Option.map_some, Option.elim_some]
    cases vnodeInfoCopy dest p.nodei with
    | error e => rfl
    | ok r => rfl

/-- Spaces that show the same node infos answer alike. -/
theorem findNode_congr (hconfig : t.config = s.config)
    (hrec : t.records (vnodeIdBucket s.myid id) = s.records (vnodeIdBucket s.myid id))
    (dest : VnodeInfo) : findNode t id dest = findNode s id dest := by
  have hmyid : t.myid = s.myid := by
    show t.config.myid = s.config.myid
    rw [hconfig]
  have hmyver : t.myver = s.myver := by
    show t.config.myver = s.config.myver
    rw [hconfig]
  have hdrop : dropWeight t = dropWeight s := by
    funext d
    rw [dropWeight, dropWeight, hmyver]
  rw [findNode_eq, findNode_eq, hmyid, hrec, hdrop]

/-! ## Operations that bring no node info -/

theorem setBucket_records (space : NodeSpace) (idx i : Fin NBUCKETS) (b : Bucket) :
    (space.setBucket idx b).records i =
      if i = idx then b.peers.map (·.nodei) else space.records i := by
  rw [NodeSpace.records, setBucket_bucket]
  split
  · rfl
  · rfl

theorem spaceExec_records (hop : KeepsNodes op.2) (hexec : spaceExec space op = .ok s) :
    s.config = space.config ∧ ∀ i, s.records i = space.records i := by
  have honPeer : ∀ (target : Token) (f : Vpeer → Vpeer), (∀ p, (f p).nodei = p.nodei) →
      ∀ idx i, (space.setBucket idx { space.bucket idx with
        peers := onPeer target f (space.bucket idx).peers }).records i = space.records i := by
    intro target f hf idx i
    rw [setBucket_records]
    split
    · rename_i hi
      rw [onPeer_nodeis hf, hi]
      rfl
    · rfl
  obtain ⟨now, op⟩ := op
  cases op with
  | addNode nodei flag => cases hop
  | kickNode target =>
    cases hexec
    exact ⟨rfl, honPeer target (kickPeer space now) (fun _ => rfl) _⟩
  | adjustConnectivity target conn =>
    cases hexec
    exact ⟨rfl, honPeer target (fun p => { p with conn := vnodeConnAdjust p.conn conn })
      (fun _ => rfl) _⟩
  | probeConnectivity laddr =>
    obtain ⟨⟨t, calls⟩, ht, rfl⟩ := map_ok hexec
    exact probeConnectivity_nodeis ht
  | tick rand =>
    obtain ⟨⟨t, calls⟩, ht, rfl⟩ := map_ok hexec
    exact nodeSpaceTick_nodeis ht
  | clear => cases hop

theorem run_records (h : space.Inv) (hops : ∀ op ∈ ops, KeepsNodes op.2) :
    ∃ s, run spaceExec space ops = .ok s ∧ s.config = space.config ∧
      ∀ i, s.records i = space.records i := by
  induction ops generalizing space with
  | nil => exact ⟨space, rfl, rfl, fun _ => rfl⟩
  | cons op ops ih =>
    obtain ⟨hop, hops⟩ := List.forall_mem_cons.mp hops
    have hadmissible : op.2.Admissible := by
      obtain ⟨now, op⟩ := op
      cases op with
      | addNode nodei flag => cases hop
      | _ => trivial
    obtain ⟨m, hm, hinv⟩ := spaceExec_ok h op hadmissible
    obtain ⟨hconfig, hrec⟩ := spaceExec_records hop hm
    obtain ⟨s, hs, hconfig', hrec'⟩ := ih hinv hops
    exact ⟨s, run_cons_ok.mpr ⟨m, hm, hs⟩, hconfig'.trans hconfig,
      fun i => (hrec' i).trans (hrec i)⟩

/-! ## Adding -/

theorem vpeerInit_same (space : NodeSpace) (h : Addable n) (now : Int) :
    ∃ q, vpeerInit space n now = .ok q ∧ q.nodei.Sound ∧ SameInfo q.nodei n := by
  obtain ⟨d, r, hcopy, hsound, hsame⟩ := vnodeInfoCopy_same fitting_vpeerAllocNodei h.le_max
    h.stored h.distinct h.sorted
  obtain ⟨q, hq, hok, -⟩ := vpeerInit_ok space h.toWellFormed now
  obtain ⟨d', r', worst, hcopy', -, rfl⟩ := vpeerInit_cases hq
  cases hcopy.symm.trans hcopy'
  exact ⟨_, hq, hok.1, hsame⟩

section Appended

variable {q : Vpeer} {idx : Fin NBUCKETS}

/-- The space with a peer at the end of a bucket. -/
def NodeSpace.append (space : NodeSpace) (idx : Fin NBUCKETS) (q : Vpeer) (now : Int) : NodeSpace :=
  space.setBucket idx ⟨(space.bucket idx).peers ++ [q], now⟩

/-- A search for another id passes the new peer. -/
theorem findNode_append_other (hid : q.nodei.id ≠ id) (now : Int) (dest : VnodeInfo) :
    findNode (space.append idx q now) id dest = findNode space id dest := by
  have hmiss : [q.nodei].find? (fun n => vtokenEqual n.id id) = none := by
    rw [List.find?_eq_none]
    intro n hn
    rw [List.mem_singleton.mp hn, vtokenEqual_iff]
    exact hid
  have hfind : ((space.append idx q now).records (vnodeIdBucket space.myid id)).find?
      (fun n => vtokenEqual n.id id) =
        (space.records (vnodeIdBucket space.myid id)).find? fun n => vtokenEqual n.id id := by
    rw [NodeSpace.append, setBucket_records]
    split
    · rename_i hidx
      rw [List.map_append, List.find?_append, List.map_singleton, hmiss, Option.or_none, hidx]
      rfl
    · rfl
  rw [findNode_eq, findNode_eq]
  show (((space.append idx q now).records (vnodeIdBucket space.myid id)).find? _).elim _ _ = _
  rw [hfind]
  rfl

/-- A search for its id gets to the new peer. -/
theorem findNode_append_self
    (hnew : ∀ p ∈ (space.bucket (vnodeIdBucket space.myid q.nodei.id)).peers,
      p.nodei.id ≠ q.nodei.id) (now : Int) (dest : VnodeInfo) :
    findNode (space.append (vnodeIdBucket space.myid q.nodei.id) q now) q.nodei.id dest =
      (vnodeInfoCopy dest q.nodei).map fun r => some (dropWeight space r.1) := by
  have hmiss : ((space.bucket (vnodeIdBucket space.myid q.nodei.id)).peers.map (·.nodei)).find?
      (fun n => vtokenEqual n.id q.nodei.id) = none := by
    rw [List.find?_eq_none]
    intro n hn
    obtain ⟨p, hp, rfl⟩ := List.mem_map.mp hn
    rw [vtokenEqual_iff]
    exact hnew p hp
  have hhit : [q.nodei].find? (fun n => vtokenEqual n.id q.nodei.id) = some q.nodei := by
    rw [List.find?_singleton, if_pos (vtokenEqual_iff.mpr rfl)]
  rw [findNode_eq]
  show (((space.append _ q now).records (vnodeIdBucket space.myid q.nodei.id)).find? _).elim _ _ = _
  rw [NodeSpace.append, setBucket_records, if_pos rfl, List.map_append, List.find?_append,
    List.map_singleton, hmiss, hhit]
  rfl

end Appended

/-- A node with one to twelve different addresses in order, that is neither the local one nor in the
space and for which there is room, is found as it was added until another node is added or the space
is cleared. The answers for other nodes stay as they were. -/
theorem added_node_is_found (h : space.Inv) (hn : Addable n) (hlocal : n.id ≠ space.myid)
    (hnew : ∀ p ∈ space.peers, p.nodei.id ≠ n.id)
    (hroom : (space.bucket (vnodeIdBucket space.myid n.id)).peers.length < space.bucket_sz)
    (flag : AddFlag) (now : Int) :
    ∃ s, addNode space n flag now = .ok s ∧
      ∀ ops, (∀ op ∈ ops, KeepsNodes op.2) → ∃ t, run spaceExec s ops = .ok t ∧
        ∀ dest : VnodeInfo, dest.Fitting →
          (∃ d, findNode t n.id dest = .ok (some d) ∧ SameInfo d n) ∧
          ∀ id, id ≠ n.id → findNode t id dest = findNode space id dest := by
  have hnone : ∀ p ∈ (space.bucket (vnodeIdBucket space.myid n.id)).peers, p.nodei.id ≠ n.id :=
    fun p hp => hnew p (mem_peers_of_bucket hp)
  obtain ⟨q, hq, hqs, hsame⟩ := vpeerInit_same space (bumpWeight_addable space hn) now
  obtain ⟨s, hs, hinv⟩ := addNode_ok h hn.toWellFormed flag now
  refine ⟨s, hs, fun ops hops => ?_⟩
  rw [addNode_new hlocal hnone hroom, appendPeer, hq] at hs
  cases hs
  obtain ⟨t, ht, hconfig, hrec⟩ := run_records hinv hops
  have hqid : q.nodei.id = n.id := hsame.header.1.trans (bumpWeight_id space n)
  refine ⟨t, ht, fun dest hdest => ⟨?_, fun id hid => ?_⟩⟩
  · obtain ⟨d, r, hcopy, -, hd⟩ := vnodeInfoCopy_same hdest hqs.naddrs_le_max
      (by have := hqs.slots; have := hqs.naddrs_le; omega)
      (by rw [hsame.used]; exact (bumpWeight_addable space hn).distinct)
      (by rw [hsame.used]; exact (bumpWeight_addable space hn).sorted)
    refine ⟨dropWeight space d, ?_, dropWeight_bumpWeight rfl (hd.trans hsame)⟩
    have hself := findNode_append_self (q := q) (by rw [hqid]; exact hnone) now dest
    rw [hqid, hcopy] at hself
    exact (findNode_congr hconfig (hrec _) dest).trans hself
  · exact (findNode_congr hconfig (hrec _) dest).trans
      (findNode_append_other (by rw [hqid]; exact fun heq => hid heq.symm) now dest)

theorem oneAddrNode_addable (id : Token) : Addable (oneAddrNode id) :=
  ⟨oneAddrNode_wellFormed id, List.pairwise_singleton _ _, List.pairwise_singleton _ _⟩

/-- A node is added to an empty space, kicked and pinged. -/
theorem added_node_is_found_kicked :
    ∃ s t d, addNode (nodeSpaceInit zeroAddr.addr 1 10 (Block.zero 20) (Block.zero 20))
        (oneAddrNode (Block.ofList 20 [1])) .byOther 0 = .ok s ∧
      run spaceExec s [(1, .kickNode (Block.ofList 20 [1])), (9, .tick fun _ => 0)] = .ok t ∧
      findNode t (Block.ofList 20 [1]) vnodeInfoRelax = .ok (some d) ∧
      SameInfo d (oneAddrNode (Block.ofList 20 [1])) := by
  have hempty := nodeSpaceInit_peers zeroAddr.addr 1 10 (Block.zero 20) (Block.zero 20)
  obtain ⟨s, hs, hfound⟩ := added_node_is_found
    (inv_init zeroAddr.addr 1 10 (Block.zero 20) (Block.zero 20))
    (oneAddrNode_addable (Block.ofList 20 [1]))
    (fun heq => absurd (congrArg Block.data heq) (by decide))
    (fun p hp => absurd (hempty ▸ hp) List.not_mem_nil) (by decide) .byOther 0
  obtain ⟨t, ht, hfind⟩ := hfound
    [(1, .kickNode (Block.ofList 20 [1])), (9, .tick fun _ => 0)] fun op hop => by
      rcases List.mem_pair.mp hop with rfl | rfl
      · trivial
      · trivial
  obtain ⟨⟨d, hd, hsame⟩, -⟩ := hfind vnodeInfoRelax fitting_relax
  exact ⟨s, t, d, hs, ht, hd, hsame⟩

end Vdht.Route
