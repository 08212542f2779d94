import Vdht.Route.InfoOrder
import Vdht.Route.Learning
import Vdht.Route.Origins
import Vdht.Route.StoreLoad
import Vdht.Route.Victim

/-!
# What survives a restart

`_vroute_node_space_store` replaces the rows of the good peers in the table, which keeps the rows it
had of other nodes; `_vroute_node_space_load` adds the rows in the order in which SQLite returns them.
A node loads the table each time it goes up. The daemon may stop at any time, so it may be started
again after any operation.

All rows are of records that can be loaded. The buckets of a space without peers are loaded with the
rows that come first, as many as there is room for.
-/

namespace Vdht.Route

open NodeId Lib

open Lsctl (AF_INET)

/-! ## The table -/

deriving instance DecidableEq for PeerRow

/-- The rows of `dht_peer`; `id` is the primary key. -/
abbrev PeerTable := List PeerRow

/-- `insert or replace` -/
def insertOrReplace (table : PeerTable) (row : PeerRow) : PeerTable :=
  table.filter (fun r => r.id ≠ row.id) ++ [row]

section Database

variable (sqlite : List UInt8 → Option PeerRow) (inetAton : List UInt8 → Option UInt32)

/-- The table after `_aux_space_store_nodei_cb`; a statement that fails changes nothing. -/
def storePeer (space : NodeSpace) (table : PeerTable) (peer : Vpeer) : Res PeerTable :=
  auxSpaceStoreNodeiCb space peer >>= fun stmt =>
    .ok ((stmt.bind sqlite).elim table (insertOrReplace table))

/-- `_vroute_node_space_store` -/
def nodeSpaceStore (space : NodeSpace) (table : PeerTable) : Res PeerTable :=
  space.peers.foldlM (storePeer sqlite space) table

/-- `_vroute_node_space_load`, with what the variables hold and the time when a row is loaded. -/
def nodeSpaceLoad (env : PeerRow → LoadVars × Int) (space : NodeSpace) (rows : List PeerRow) :
    Res NodeSpace :=
  rows.foldlM (fun s row => auxSpaceLoadNodeiCb inetAton (env row).1 s row (env row).2) space

/-! ## Runs -/

structure Durable where
  space : NodeSpace
  table : PeerTable

inductive DurableOp where
  | op (o : Int × SpaceOp)
  | store
  /-- the node goes up, and SQLite returns the rows -/
  | load (env : PeerRow → LoadVars × Int) (rows : List PeerRow)
  /-- the daemon is started again -/
  | boot (space : NodeSpace)

def durableStep (d : Durable) : DurableOp → Res Durable
  | .op o => (spaceExec d.space o).map fun space => { d with space := space }
  | .store => (nodeSpaceStore sqlite d.space d.table).map fun table => { d with table := table }
  | .load env rows =>
    (nodeSpaceLoad inetAton env d.space rows).map fun space => { d with space := space }
  | .boot space => .ok { d with space := space }

end Database

/-! ## Rows -/

/-- The text of a list of addresses. -/
def addrsWord : List VsockaddrIn → List UInt8
  | [] => []
  | a :: l => addrWord a ++ moreWord l

/-- The row of a node. -/
def infoRow (nodei : VnodeInfo) : PeerRow :=
  ⟨idWord nodei.id, verWord nodei.ver, addrsWord nodei.used⟩

/-- What a row keeps of a node: its id and its addresses. -/
def kept (nodei : VnodeInfo) : Token × List (UInt32 × UInt16 × UInt32) :=
  (nodei.id, nodei.used.map stored)

theorem idWord_injective {a b : Token} (h : idWord a = idWord b) : a = b := by
  have ha := @vtokenUnstrlize_idWord [] a a
  have hb := @vtokenUnstrlize_idWord [] b a
  rw [h] at ha
  exact (Prod.mk.inj (Except.ok.inj (ha.symm.trans hb))).1

section Storing

variable {sqlite : List UInt8 → Option PeerRow} {space : NodeSpace} {table : PeerTable} {p : Vpeer}

theorem storePeer_good (hsql : StoresStrings sqlite) (hgood : isGood space p = true)
    (hn : p.nodei.WellFormed) :
    storePeer sqlite space table p = .ok (insertOrReplace table (infoRow p.nodei)) := by
  obtain ⟨a, rest, stmt, hused, -, hstore, hfit⟩ := store_ok hgood hn
  have haddrs : Avoids ['\''.toUInt8] (addrWord a ++ moreWord rest) :=
    ((avoids_addrWord a).of_subset (by simp)).append (avoids_moreWord rest)
  have hver : Avoids ['\''.toUInt8] (verWord p.nodei.ver) :=
    (avoids_verWord _).of_subset (by simp [separators])
  have hrow : sqlite stmt = some (peerRow p.nodei a rest) :=
    hsql _ _ (avoids_hexBytes _) hver haddrs hfit.stmt.1
  have hinfo : infoRow p.nodei = peerRow p.nodei a rest := by
    rw [infoRow, hused]
    rfl
  rw [storePeer, hstore, ok_bind, Option.bind_some, hrow, hinfo]
  rfl

theorem storePeer_bad (hbad : isGood space p = false) :
    storePeer sqlite space table p = .ok table := by
  have hskip : auxSpaceStoreNodeiCb space p = .ok none := by
    unfold auxSpaceStoreNodeiCb
    split
    · rfl
    · split
      · rfl
      · rename_i hfake htmo
        simp [isGood, hfake, htmo] at hbad
  rw [storePeer, hskip]
  rfl

/-- The rows of other nodes stay, and those of the good peers come behind them. -/
def rewritten (space : NodeSpace) (table : PeerTable) (peers : List Vpeer) : PeerTable :=
  let good := peers.filter (isGood space)
  table.filter (fun r => ∀ p ∈ good, (infoRow p.nodei).id ≠ r.id) ++
    good.map fun p => infoRow p.nodei

/-- The first row is not replaced by those of other nodes. -/
theorem rewritten_cons {peers : List Vpeer} (hgood : isGood space p = true)
    (hother : ∀ q ∈ peers, (infoRow q.nodei).id ≠ (infoRow p.nodei).id) :
    rewritten space table (p :: peers) =
      rewritten space (insertOrReplace table (infoRow p.nodei)) peers := by
  have hkeep : [infoRow p.nodei].filter
      (fun r => ∀ q ∈ peers.filter (isGood space), (infoRow q.nodei).id ≠ r.id) =
        [infoRow p.nodei] :=
    List.filter_cons_of_pos (decide_eq_true fun q hq => hother q (List.mem_of_mem_filter hq))
  rw [rewritten, rewritten, insertOrReplace, List.filter_cons_of_pos hgood, List.filter_append,
    List.filter_filter, hkeep, List.append_assoc, List.map_cons]
  congr 1
  refine List.filter_congr fun r _ => ?_
  rw [← Bool.decide_and, decide_eq_decide, List.forall_mem_cons, ne_comm, and_comm]

theorem storePeers_ok (hsql : StoresStrings sqlite) {peers : List Vpeer}
    (hn : ∀ p ∈ peers, p.nodei.WellFormed) (hids : (peers.map fun p => p.nodei.id).Nodup) :
    peers.foldlM (storePeer sqlite space) table = .ok (rewritten space table peers) := by
  induction peers generalizing table with
  | nil =>
    have hsame : rewritten space table [] = table := by simp [rewritten]
    rw [hsame]
    rfl
  | cons p peers ih =>
    rw [List.map_cons, List.nodup_cons] at hids
    have hrest : ∀ q ∈ peers, q.nodei.WellFormed := fun q hq => hn q (List.mem_cons_of_mem _ hq)
    rw [List.foldlM_cons]
    cases hgood : isGood space p with
    | false =>
      rw [storePeer_bad hgood, ok_bind, ih hrest hids.2, rewritten, rewritten,
        List.filter_cons_of_neg (by rw [hgood]; exact Bool.false_ne_true)]
    | true =>
      rw [storePeer_good hsql hgood (hn p List.mem_cons_self), ok_bind, ih hrest hids.2,
        rewritten_cons hgood]
      intro q hq heq
      exact hids.1 (List.mem_map.mpr ⟨q, hq, idWord_injective heq⟩)

end Storing

/-! ## Records that can be stored -/

/-- An IPv4 address with a port. -/
def Reachable (a : AddrKey) : Prop := a.port ≠ 0 ∧ a.family = AF_INET

/-- The addresses are different and in order. -/
structure Tidy (l : List VsockaddrIn) : Prop where
  distinct : DistinctAddrs l
  sorted : SortedBy baseType l

/-- A record that can be added, with different addresses. -/
structure Clean (nodei : VnodeInfo) : Prop extends Known Reachable nodei where
  distinct : DistinctAddrs nodei.used

section Records

variable {dest n d : VnodeInfo} {ret : Int}

theorem distinct_addAddr {b b' : AddrBlock} {addr : SockaddrIn} {type : UInt32} {r : Int}
    (hb : b.Sound nodeRule) (h : DistinctAddrs b.used)
    (hadd : addAddr nodeRule b addr type = .ok (b', r)) : DistinctAddrs b'.used := by
  rcases Int.lt_or_le b.naddrs MAX_ADDRS with hlt | hge
  · obtain ⟨c, r', hc, -, -, hused, -⟩ := @addAddr_ok nodeRule b hb hlt addr type rfl
    rw [hc] at hadd
    cases hadd
    rw [hused]
    exact distinctAddrs_putAddr h addr type
  · rw [@addAddr_full nodeRule b hge addr type rfl] at hadd
    cases hadd
    exact h

theorem tidy_copy (hdest : dest.Fitting) (hn : Clean n) (h : vnodeInfoCopy dest n = .ok (d, ret)) :
    Tidy d.used := by
  refine ⟨?_, sorted_copy hdest hn.distinct h⟩
  obtain ⟨d', r', hcopy, -, -, -, -, -, hused⟩ := vnodeInfoCopy_ok hdest hn.le_max hn.stored
  rw [hcopy] at h
  cases h
  rw [hused]
  exact (distinctAddrs_perm (putAddrs_perm (m := []) hn.distinct)).mpr hn.distinct

theorem tidy_merge (hdest : dest.Sound) (ht : Tidy dest.used) (hn : Clean n)
    (h : vnodeInfoMerge dest n = .ok (d, ret)) : Tidy d.used := by
  refine ⟨?_, sorted_merge hdest ht.sorted hn.distinct h⟩
  unfold vnodeInfoMerge at h
  split at h
  · cases h
    exact ht.distinct
  · split at h
    · split at h
      · cases h
      · rename_i b r' hb
        cases h
        refine (mergeFake_invariant
          (I := fun c => c.Sound nodeRule ∧ DistinctAddrs c.used) ?_ ⟨hdest, ht.distinct⟩ hb).2
        intro c c' addr type r ⟨hc, hdistinct⟩ _ hadd
        exact ⟨(addAddr_keeps hc hadd).1, distinct_addAddr hc hdistinct hadd⟩
    · split at h
      · split at h
        · cases h
        · rename_i c r' hcopy
          cases h
          exact (tidy_copy hdest.toFitting hn hcopy).distinct
      · rename_i hsame
        split at h
        · cases h
        · rename_i addrs updated hm
          cases h
          rw [ne_eq, not_not] at hsame
          show DistinctAddrs (addrs.take dest.naddrs.toNat)
          rw [hsame, distinctAddrs_iff, mergeSame_keys hm, ← distinctAddrs_iff]
          exact hn.distinct

end Records

/-- The peers of the space can be stored, but for what makes a peer bad. -/
structure NodeSpace.Tidied (space : NodeSpace) : Prop extends space.Sourced Reachable where
  tidy : ∀ p ∈ space.peers, Tidy p.nodei.used

/-- A node that is added is clean. -/
def SpaceOp.BringsClean : SpaceOp → Prop
  | .addNode nodei _ => Clean nodei
  | _ => True

/-- Nodes that are added have one to twelve different IPv4 addresses with ports, all rows of the
table are returned, and the daemon starts without peers. -/
def DurableOp.Allowed (d : Durable) : DurableOp → Prop
  | .op o => o.2.BringsClean
  | .store => True
  | .load _ rows => rows.Perm d.table
  | .boot space => space.Empty

section Space

variable {space : NodeSpace}

theorem clean_bumpWeight (space : NodeSpace) {n : VnodeInfo} (h : Clean n) :
    Clean (bumpWeight space n) := by
  refine ⟨known_bumpWeight space h.toKnown, ?_⟩
  rw [bumpWeight_used]
  exact h.distinct

theorem SpaceOp.BringsClean.brings {op : SpaceOp} (h : op.BringsClean) : op.Brings Reachable := by
  cases op with
  | addNode nodei flag => exact h.toKnown
  | kickNode | adjustConnectivity | probeConnectivity | tick | clear => trivial

theorem NodeSpace.Tidied.exec (h : space.Tidied) {o : Int × SpaceOp} (ho : o.2.BringsClean) :
    ∃ s, spaceExec space o = .ok s ∧ s.Tidied := by
  obtain ⟨s, hs, hsourced⟩ := h.toSourced.exec ho.brings
  refine ⟨s, hs, hsourced, fun q hq => ?_⟩
  rcases (spaceExec_from hs).2 q hq with ⟨p, hp, hstep⟩ | henters
  · have ht := h.tidy p hp
    cases hstep with
    | updated hu =>
      obtain ⟨d, hmerge, ⟨-, worst, -, rfl⟩ | ⟨-, rfl⟩⟩ := vpeerUpdate_cases hu
      · exact tidy_merge (h.inv.peerOk hp).1 ht (clean_bumpWeight space ho) hmerge
      · exact tidy_merge (h.inv.peerOk hp).1 ht (clean_bumpWeight space ho) hmerge
    | pinged now rand =>
      rw [pingPeer_nodei]
      exact ht
    | same | kicked | adjusted | probed => exact ht
  · cases henters with
    | added flag hne hinit =>
      obtain ⟨d, r, worst, hcopy, -, rfl⟩ := vpeerInit_cases hinit
      exact tidy_copy fitting_vpeerAllocNodei (clean_bumpWeight space ho) hcopy

theorem NodeSpace.Empty.not_mem (h : space.Empty) (p : Vpeer) : p ∉ space.peers := by
  intro hp
  obtain ⟨i, hi⟩ := mem_allItems.mp hp
  rw [h i] at hi
  exact List.not_mem_nil hi

theorem NodeSpace.Empty.tidied (h : space.Empty) : space.Tidied := by
  refine ⟨⟨fun i => ?_, fun p hp => absurd hp (h.not_mem p)⟩, fun p hp => absurd hp (h.not_mem p)⟩
  rw [h i]
  exact ⟨BucketOk.nil i, List.forall_mem_nil _, List.forall_mem_nil _⟩

/-- Every peer of such a space can be stored and loaded. -/
theorem NodeSpace.Tidied.storable (h : space.Tidied) {p : Vpeer} (hp : p ∈ space.peers) :
    Storable p.nodei := by
  obtain ⟨hsound, hpos⟩ := h.inv.peerOk hp
  have hslots := hsound.slots
  have hle := hsound.naddrs_le
  have hin := h.addrs p hp
  refine ⟨⟨hpos, hsound.naddrs_le_max, by omega⟩, fun a ha => (hin a ha).1, ?_, (h.tidy p hp).sorted⟩
  refine List.pairwise_map.mpr ((h.tidy p hp).distinct.imp_of_mem ?_)
  intro a b ha hb hne heq
  rw [← Bool.not_eq_true, vsockaddrEqual_iff] at hne
  exact hne ⟨(hin a ha).2.trans (hin b hb).2.symm, congrArg Prod.fst heq, congrArg Prod.snd heq⟩

end Space

/-! ## Loading -/

/-- The bucket in which the space keeps the node. -/
def Home (space : NodeSpace) (i : Fin NBUCKETS) (n : VnodeInfo) : Prop :=
  n.id ≠ space.myid ∧ vnodeIdBucket space.myid n.id = i

instance (space : NodeSpace) (i : Fin NBUCKETS) (n : VnodeInfo) : Decidable (Home space i n) :=
  inferInstanceAs (Decidable (_ ∧ _))

/-- What is kept of the peers of a bucket. -/
def NodeSpace.contents (space : NodeSpace) (i : Fin NBUCKETS) :
    List (Token × List (UInt32 × UInt16 × UInt32)) :=
  (space.bucket i).peers.map fun p => kept p.nodei

section Loading

variable {space : NodeSpace} {n : VnodeInfo}

theorem setBucket_self (i : Fin NBUCKETS) : space.setBucket i (space.bucket i) = space := by
  rw [NodeSpace.setBucket, Function.update_eq_self]

theorem contents_setBucket (k : Fin NBUCKETS) (b : Bucket) (i : Fin NBUCKETS) :
    (space.setBucket k b).contents i =
      if i = k then b.peers.map fun p => kept p.nodei else space.contents i := by
  change (Function.update space.bucket k b i).peers.map _ = _
  rw [Function.update_apply]
  split <;> rfl

/-- A node that is new to a full bucket changes nothing, unless it has answered a ping. -/
theorem addNode_crowded (hlocal : n.id ≠ space.myid)
    (hnew : ∀ p ∈ (space.bucket (vnodeIdBucket space.myid n.id)).peers, p.nodei.id ≠ n.id)
    (hfull : space.bucket_sz ≤ (space.bucket (vnodeIdBucket space.myid n.id)).peers.length)
    (now : Int) : addNode space n .byOther now = .ok space := by
  have hnot : ¬ vtokenEqual space.myid n.id = true := fun h => hlocal (vtokenEqual_iff.mp h).symm
  have hspec := findWorst_spec n.id (space.bucket (vnodeIdBucket space.myid n.id)).peers 0
    (bumpWeight space n).weight.toInt 3 none
  unfold addNode
  rw [if_neg hnot]
  dsimp only
  rw [bumpWeight_id]
  generalize findWorst n.id _ 0 _ 3 none = res at hspec ⊢
  obtain ⟨found, want⟩ := res
  rcases hspec with ⟨j, p, -, hj, hid⟩ | ⟨rfl, -, rfl | ⟨j, p, rfl, hj⟩⟩
  · exact absurd hid (hnew p (List.mem_of_getElem? hj))
  · dsimp only
    rw [if_neg fun h => Bool.false_ne_true h.1, if_neg (Nat.not_lt.mpr hfull)]
  · have hother : p.nodei.id ≠ (bumpWeight space n).id := by
      rw [bumpWeight_id]
      exact hnew p (List.mem_of_getElem? hj)
    dsimp only
    rw [Nat.zero_add, if_pos ⟨rfl, hfull⟩, Option.getD_some]
    unfold updatePeer getSlot
    rw [hj]
    dsimp only
    rw [vpeerUpdate_other .byOther now hother]
    obtain ⟨hlt, hget⟩ := List.getElem?_eq_some_iff.mp hj
    have hset : (space.bucket (vnodeIdBucket space.myid n.id)).peers.set j p =
        (space.bucket (vnodeIdBucket space.myid n.id)).peers := by
      rw [← hget, List.set_getElem_self]
    dsimp only [vpeerTouch]
    rw [hset]
    exact congrArg Except.ok (setBucket_self _)

theorem length_contents_le (h : space.Inv) (i : Fin NBUCKETS) :
    (space.contents i).length ≤ space.bucket_sz := by
  rw [NodeSpace.contents, List.length_map]
  exact (h i).ok.bounded

/-- Nothing is put into a bucket that is full or not the node's own. -/
theorem contents_stays (h : space.Inv) {i : Fin NBUCKETS}
    (hi : ¬ Home space i n ∨ space.bucket_sz ≤ (space.bucket i).peers.length) :
    space.contents i =
      (space.contents i ++ if Home space i n then [kept n] else []).take space.bucket_sz := by
  have hle := length_contents_le h i
  rcases hi with hi | hi
  · rw [if_neg hi, List.append_nil, List.take_of_length_le hle]
  · have hlen : (space.contents i).length = space.bucket_sz := by
      rw [NodeSpace.contents, List.length_map] at hle ⊢
      omega
    rw [← hlen, List.take_left]

/-- A record that is added goes to the end of its bucket if there is room. -/
theorem addNode_fills (h : space.Inv) (hn : n.WellFormed) (hkeep : putAddrs nodeRule [] n.used = n.used)
    (hnew : ∀ p ∈ space.peers, p.nodei.id ≠ n.id) (now : Int) :
    ∃ s, addNode space n .byOther now = .ok s ∧ s.Inv ∧ s.myid = space.myid ∧
      s.bucket_sz = space.bucket_sz ∧
      ∀ i, s.contents i =
        (space.contents i ++ if Home space i n then [kept n] else []).take space.bucket_sz := by
  by_cases hlocal : n.id = space.myid
  · have hskip : addNode space n .byOther now = .ok space :=
      if_pos (vtokenEqual_iff.mpr hlocal.symm)
    exact ⟨space, hskip, h, rfl, rfl, fun i => contents_stays h (Or.inl fun hi => hi.1 hlocal)⟩
  have hnew' : ∀ p ∈ (space.bucket (vnodeIdBucket space.myid n.id)).peers, p.nodei.id ≠ n.id :=
    fun p hp => hnew p (mem_peers_of_bucket hp)
  by_cases hfull : space.bucket_sz ≤ (space.bucket (vnodeIdBucket space.myid n.id)).peers.length
  · refine ⟨space, addNode_crowded hlocal hnew' hfull now, h, rfl, rfl, fun i => contents_stays h ?_⟩
    by_cases hi : Home space i n
    · exact Or.inr (hi.2 ▸ hfull)
    · exact Or.inl hi
  · obtain ⟨s, hadd, hinv⟩ := addNode_ok h hn .byOther now
    obtain ⟨q, hq, hid, hused⟩ := vpeerInit_used space (bumpWeight_wellFormed space hn) now
    rw [bumpWeight_id] at hid
    rw [bumpWeight_used, hkeep] at hused
    have hkept : kept q.nodei = kept n := Prod.ext hid (congrArg (List.map stored) hused)
    have happend := addNode_new hlocal hnew' (Nat.not_le.mp hfull) .byOther now
    rw [appendPeer, hq] at happend
    dsimp only at happend
    rw [happend] at hadd
    cases hadd
    refine ⟨_, happend, hinv, rfl, rfl, fun i => ?_⟩
    rw [contents_setBucket]
    by_cases hi : i = vnodeIdBucket space.myid n.id
    · subst hi
      have hlen : (space.contents (vnodeIdBucket space.myid n.id) ++ [kept n]).length ≤
          space.bucket_sz := by
        rw [List.length_append, NodeSpace.contents, List.length_map, List.length_singleton]
        omega
      rw [if_pos rfl, if_pos ⟨hlocal, rfl⟩, List.take_of_length_le hlen, List.map_append,
        List.map_singleton, hkept]
      rfl
    · rw [if_neg hi]
      exact contents_stays h (Or.inl fun hhome => hi hhome.2.symm)

theorem take_refill {α : Type} (l m : List α) (k : Nat) :
    (l.take k ++ m).take k = (l ++ m).take k := by
  have hleft : k - (l.take k).length = k - l.length := by
    rw [List.length_take]
    omega
  rw [List.take_append, List.take_append, List.take_take, Nat.min_self, hleft]

theorem mem_contents {x : Token × List (UInt32 × UInt16 × UInt32)} :
    (∃ i, x ∈ space.contents i) ↔ ∃ p ∈ space.peers, kept p.nodei = x := by
  simp only [NodeSpace.contents, List.mem_map, NodeSpace.peers, mem_allItems]
  constructor
  · rintro ⟨i, p, hp, rfl⟩
    exact ⟨p, ⟨i, hp⟩, rfl⟩
  · rintro ⟨p, ⟨i, hp⟩, rfl⟩
    exact ⟨i, p, hp, rfl⟩

/-- The row of a node is loaded as if a clean record of the node were added. -/
theorem loadInfoRow_ok {inetAton : List UInt8 → Option UInt32}
    (haton : ∀ ip, inetAton (inetNtoa ip) = some ip) (hn : Storable n) (space : NodeSpace)
    (vars : LoadVars) (now : Int) :
    ∃ d, auxSpaceLoadNodeiCb inetAton vars space (infoRow n) now = addNode space d .byOther now ∧
      Clean d ∧ kept d = kept n ∧ putAddrs nodeRule [] d.used = d.used := by
  obtain ⟨a, rest, hused, hrest, -⟩ := addrsText_ok hn.toWellFormed
  obtain ⟨d, hload, hwf, hid, hdused, hkeep⟩ := loadRow_ok haton hn hused hrest space vars now
  have hinfo : infoRow n = peerRow n a rest := by
    rw [infoRow, hused]
    rfl
  rw [← hused] at hdused hkeep
  refine ⟨d, hinfo ▸ hload, ⟨⟨hwf, ?_⟩, ?_⟩, ?_, hdused ▸ hkeep⟩
  · rw [hdused]
    intro b hb
    obtain ⟨c, hc, rfl⟩ := List.mem_map.mp hb
    exact ⟨hn.ports c hc, rfl⟩
  · rw [hdused]
    exact distinct_reloaded hn.distinct
  · rw [kept, hid, hdused, map_stored_reloaded]
    rfl

/-- Rows can be loaded into any space. -/
theorem nodeSpaceLoad_tidied {inetAton : List UInt8 → Option UInt32}
    (haton : ∀ ip, inetAton (inetNtoa ip) = some ip) (env : PeerRow → LoadVars × Int)
    {ns : List VnodeInfo} (hn : ∀ n ∈ ns, Storable n) (h : space.Tidied) :
    ∃ s, nodeSpaceLoad inetAton env space (ns.map infoRow) = .ok s ∧ s.Tidied := by
  induction ns generalizing space with
  | nil => exact ⟨space, rfl, h⟩
  | cons n ns ih =>
    obtain ⟨d, hload, hclean, -⟩ := loadInfoRow_ok haton (hn n List.mem_cons_self) space
      (env (infoRow n)).1 (env (infoRow n)).2
    obtain ⟨m, hexec, hm⟩ := h.exec (o := ((env (infoRow n)).2, .addNode d .byOther)) hclean
    have hadd : addNode space d .byOther (env (infoRow n)).2 = .ok m := hexec
    obtain ⟨s, hrest, hs⟩ := ih (fun x hx => hn x (List.mem_cons_of_mem _ hx)) hm
    refine ⟨s, ?_, hs⟩
    rw [List.map_cons, nodeSpaceLoad, List.foldlM_cons, hload, hadd, ok_bind]
    exact hrest

theorem home_congr {m : NodeSpace} (hmyid : m.myid = space.myid) (i : Fin NBUCKETS)
    (n : VnodeInfo) : Home m i n ↔ Home space i n := by
  rw [Home, Home, hmyid]

theorem kept_filter_cons (i : Fin NBUCKETS) (n : VnodeInfo) (ns : List VnodeInfo) :
    ((n :: ns).filter (Home space i)).map kept =
      (if Home space i n then [kept n] else []) ++ (ns.filter (Home space i)).map kept := by
  by_cases hi : Home space i n
  · rw [if_pos hi, List.filter_cons, if_pos (decide_eq_true hi)]
    rfl
  · rw [if_neg hi, List.filter_cons, if_neg fun h => hi (of_decide_eq_true h)]
    rfl

/-- The peers after a record was added have old ids or the new one. -/
theorem id_of_fills {m : NodeSpace}
    (hm : ∀ i, m.contents i =
      (space.contents i ++ if Home space i n then [kept n] else []).take space.bucket_sz)
    {p : Vpeer} (hp : p ∈ m.peers) :
    (∃ q ∈ space.peers, q.nodei.id = p.nodei.id) ∨ n.id = p.nodei.id := by
  obtain ⟨i, hi⟩ := mem_contents.mpr ⟨p, hp, rfl⟩
  rw [hm] at hi
  rcases List.mem_append.mp (List.mem_of_mem_take hi) with hold | hhere
  · obtain ⟨q, hq, hsame⟩ := mem_contents.mp ⟨i, hold⟩
    exact Or.inl ⟨q, hq, congrArg Prod.fst hsame⟩
  · right
    split at hhere
    · exact congrArg Prod.fst (List.mem_singleton.mp hhere).symm
    · exact absurd hhere List.not_mem_nil

/-- Loading rows of new nodes fills the buckets in the order of the rows. -/
theorem nodeSpaceLoad_ok {inetAton : List UInt8 → Option UInt32}
    (haton : ∀ ip, inetAton (inetNtoa ip) = some ip) (env : PeerRow → LoadVars × Int)
    {ns : List VnodeInfo} (hn : ∀ n ∈ ns, Storable n) (hids : (ns.map fun n => n.id).Nodup)
    (h : space.Inv) (hnew : ∀ n ∈ ns, ∀ p ∈ space.peers, p.nodei.id ≠ n.id) :
    ∃ s, nodeSpaceLoad inetAton env space (ns.map infoRow) = .ok s ∧
      ∀ i, s.contents i =
        (space.contents i ++ (ns.filter (Home space i)).map kept).take space.bucket_sz := by
  induction ns generalizing space with
  | nil =>
    refine ⟨space, rfl, fun i => ?_⟩
    rw [List.filter_nil, List.map_nil, List.append_nil,
      List.take_of_length_le (length_contents_le h i)]
  | cons n ns ih =>
    rw [List.map_cons, List.nodup_cons] at hids
    obtain ⟨d, hload, hclean, hkept, hkeep⟩ := loadInfoRow_ok haton (hn n List.mem_cons_self) space
      (env (infoRow n)).1 (env (infoRow n)).2
    have hid : d.id = n.id := congrArg Prod.fst hkept
    obtain ⟨m, hadd, hinv, hmyid, hsz, hm⟩ := addNode_fills h hclean.toWellFormed hkeep
      (hid ▸ hnew n List.mem_cons_self) (env (infoRow n)).2
    have hnew' : ∀ x ∈ ns, ∀ p ∈ m.peers, p.nodei.id ≠ x.id := by
      intro x hx p hp heq
      rcases id_of_fills hm hp with ⟨q, hq, hold⟩ | hsame
      · exact hnew x (List.mem_cons_of_mem _ hx) q hq (hold.trans heq)
      · exact hids.1 (List.mem_map.mpr ⟨x, hx, (hid.symm.trans (hsame.trans heq)).symm⟩)
    obtain ⟨s, hrest, hcontents⟩ :=
      ih (fun x hx => hn x (List.mem_cons_of_mem _ hx)) hids.2 hinv hnew'
    refine ⟨s, ?_, fun i => ?_⟩
    · rw [List.map_cons, nodeSpaceLoad, List.foldlM_cons, hload, hadd, ok_bind]
      exact hrest
    · have hfilter : ns.filter (Home m i) = ns.filter (Home space i) :=
        List.filter_congr fun x _ => decide_eq_decide.mpr (home_congr hmyid i x)
      have hfirst : (if Home space i d then [kept d] else []) =
          if Home space i n then [kept n] else [] := by
        have hd : Home space i d ↔ Home space i n := by rw [Home, Home, hid]
        rw [hkept]
        exact if_congr hd rfl rfl
      rw [hcontents, hm, hsz, take_refill, hfilter, hfirst, kept_filter_cons, List.append_assoc]

end Loading

/-! ## Restarts -/

/-- The rows of a table are those of different nodes, which can all be loaded. -/
structure RowsOf (table : PeerTable) (ns : List VnodeInfo) : Prop where
  rows : table = ns.map infoRow
  storable : ∀ n ∈ ns, Storable n
  distinct : (ns.map fun n => n.id).Nodup

/-- The nodes in the table after a store. -/
def survivors (space : NodeSpace) (ns : List VnodeInfo) : List VnodeInfo :=
  ns.filter (fun n => ∀ p ∈ space.goodPeers, p.nodei.id ≠ n.id) ++
    space.goodPeers.map fun p => p.nodei

/-- What a start finds after a store. -/
structure Restored (d : Durable) (fresh s : NodeSpace) : Prop where
  /-- a good peer is found again unless its bucket is full -/
  found : ∀ p ∈ d.space.goodPeers, p.nodei.id ≠ fresh.myid →
    kept p.nodei ∈ s.contents (vnodeIdBucket fresh.myid p.nodei.id) ∨
      fresh.bucket_sz ≤ (s.contents (vnodeIdBucket fresh.myid p.nodei.id)).length
  /-- no peer is made up -/
  known : ∀ i, ∀ x ∈ s.contents i, (∃ p ∈ d.space.goodPeers, kept p.nodei = x) ∨
    ∃ n, infoRow n ∈ d.table ∧ kept n = x ∧ ∀ p ∈ d.space.goodPeers, p.nodei.id ≠ n.id
  /-- the buckets are as they were, when the table has no rows of other nodes -/
  same : fresh.myid = d.space.myid → fresh.bucket_sz = d.space.bucket_sz →
    (∀ row ∈ d.table, ∃ p ∈ d.space.goodPeers, (infoRow p.nodei).id = row.id) →
    ∀ i, (s.contents i).Perm
      (((d.space.bucket i).peers.filter (isGood d.space)).map fun p => kept p.nodei)

/-- Every peer can be stored, and every row loaded. -/
structure Durable.Sound (d : Durable) : Prop where
  tidied : d.space.Tidied
  rows : ∃ ns, RowsOf d.table ns

section Restarts

variable {sqlite : List UInt8 → Option PeerRow} {inetAton : List UInt8 → Option UInt32}
  {space fresh : NodeSpace} {table rows : PeerTable} {ns : List VnodeInfo}

theorem rewritten_rows :
    rewritten space (ns.map infoRow) space.peers = (survivors space ns).map infoRow := by
  have hid : ∀ n m : VnodeInfo, (infoRow n).id = (infoRow m).id ↔ n.id = m.id :=
    fun n m => ⟨fun h => idWord_injective h, fun h => congrArg idWord h⟩
  have hkeep : (fun r : PeerRow => decide (∀ p ∈ space.goodPeers, (infoRow p.nodei).id ≠ r.id)) ∘
      infoRow = fun n => decide (∀ p ∈ space.goodPeers, p.nodei.id ≠ n.id) := by
    funext n
    exact decide_eq_decide.mpr (forall₂_congr fun p _ => not_congr (hid p.nodei n))
  rw [survivors, List.map_append, List.map_map, ← hkeep, ← List.filter_map]
  rfl

theorem RowsOf.survive (h : RowsOf table ns) (hspace : space.Tidied) :
    RowsOf ((survivors space ns).map infoRow) (survivors space ns) := by
  refine ⟨rfl, fun n hn => ?_, ?_⟩
  · rcases List.mem_append.mp hn with hn | hn
    · exact h.storable n (List.mem_of_mem_filter hn)
    · obtain ⟨p, hp, rfl⟩ := List.mem_map.mp hn
      exact hspace.storable (List.mem_of_mem_filter hp)
  · rw [survivors, List.map_append, List.map_map]
    refine List.Nodup.append (h.distinct.sublist (List.filter_sublist.map _))
      (hspace.inv.placed.distinct.sublist (List.filter_sublist.map _)) ?_
    intro id hold hgood
    obtain ⟨n, hn, rfl⟩ := List.mem_map.mp hold
    obtain ⟨p, hp, hid⟩ := List.mem_map.mp hgood
    exact of_decide_eq_true (List.mem_filter.mp hn).2 p hp hid

theorem nodeSpaceStore_ok (hsql : StoresStrings sqlite) (hspace : space.Tidied)
    (h : RowsOf table ns) :
    nodeSpaceStore sqlite space table = .ok ((survivors space ns).map infoRow) := by
  have hn : ∀ p ∈ space.peers, p.nodei.WellFormed := fun p hp => (hspace.storable hp).toWellFormed
  rw [nodeSpaceStore, storePeers_ok hsql hn hspace.inv.placed.distinct, h.rows, rewritten_rows]

/-- A permutation of images is the image of a permutation. -/
theorem exists_map_of_perm {α β : Type} {f : α → β} {l : List β} {m : List α}
    (h : l.Perm (m.map f)) : ∃ k : List α, k.Perm m ∧ l = k.map f := by
  have himage : List.Forall₂ (fun b a => b = f a) (m.map f) m :=
    List.forall₂_map_left_iff.mpr (List.forall₂_same.mpr fun _ _ => rfl)
  obtain ⟨k, hk, hperm⟩ := List.perm_comp_forall₂ h himage
  have heq : List.Forall₂ (· = ·) l (k.map f) := List.forall₂_map_right_iff.mpr hk
  rw [List.forall₂_eq_eq_eq] at heq
  exact ⟨k, hperm, heq⟩

theorem RowsOf.perm (h : RowsOf table ns) (hrows : rows.Perm table) :
    ∃ ms, rows = ms.map infoRow ∧ ms.Perm ns ∧ RowsOf rows ms := by
  rw [h.rows] at hrows
  obtain ⟨ms, hms, rfl⟩ := exists_map_of_perm hrows
  exact ⟨ms, rfl, hms, rfl, fun n hn => h.storable n (hms.mem_iff.mp hn),
    (hms.map _).nodup_iff.mpr h.distinct⟩

/-- Starting fills the buckets with the rows that belong there and come first. -/
theorem RowsOf.load (h : RowsOf table ns) (haton : ∀ ip, inetAton (inetNtoa ip) = some ip)
    (env : PeerRow → LoadVars × Int) (hfresh : fresh.Empty) (hrows : rows.Perm table) :
    ∃ (ms : List VnodeInfo) (s : NodeSpace), ms.Perm ns ∧
      nodeSpaceLoad inetAton env fresh rows = .ok s ∧
      ∀ i, s.contents i = ((ms.filter (Home fresh i)).map kept).take fresh.bucket_sz := by
  obtain ⟨ms, rfl, hms, hrowsof⟩ := h.perm hrows
  obtain ⟨s, hload, hs⟩ := nodeSpaceLoad_ok haton env hrowsof.storable hrowsof.distinct
    hfresh.tidied.inv fun n _ p hp => absurd hp (hfresh.not_mem p)
  refine ⟨ms, s, hms, hload, fun i => ?_⟩
  have hempty : fresh.contents i = [] := by
    rw [NodeSpace.contents, hfresh i]
    rfl
  rw [hs, hempty, List.nil_append]

/-! ## What a start finds -/

theorem goodPeers_home (h : space.Inv) (i : Fin NBUCKETS) :
    space.goodPeers.filter (fun p => Home space i p.nodei) =
      (space.bucket i).peers.filter (isGood space) := by
  have hbucket : ∀ k, ((space.bucket k).peers.filter (isGood space)).filter
      (fun p => Home space i p.nodei) =
        if k = i then (space.bucket i).peers.filter (isGood space) else [] := by
    intro k
    split
    · rename_i hk
      subst hk
      refine List.filter_eq_self.mpr fun p hp => decide_eq_true ?_
      have hp := List.mem_of_mem_filter hp
      exact ⟨(h k).not_local p hp, (h k).ok.placed p hp⟩
    · rename_i hk
      refine List.filter_eq_nil_iff.mpr fun p hp hhome => hk ?_
      have hplaced := (h k).ok.placed p (List.mem_of_mem_filter hp)
      exact hplaced.symm.trans (of_decide_eq_true hhome).2
  rw [NodeSpace.goodPeers, NodeSpace.peers, allItems, List.filter_flatMap, List.filter_flatMap]
  exact (congrArg allItems (funext hbucket)).trans (allItems_single i _)

theorem RowsOf.restored {d : Durable} {s : NodeSpace} {ms : List VnodeInfo}
    (h : RowsOf d.table ns) (hspace : d.space.Tidied) (hms : ms.Perm (survivors d.space ns))
    (hs : ∀ i, s.contents i = ((ms.filter (Home fresh i)).map kept).take fresh.bucket_sz) :
    Restored d fresh s where
  found := by
    intro p hp hother
    have hmem : p.nodei ∈ ms :=
      hms.mem_iff.mpr (List.mem_append_right _ (List.mem_map.mpr ⟨p, hp, rfl⟩))
    have hhome : p.nodei ∈ ms.filter (Home fresh (vnodeIdBucket fresh.myid p.nodei.id)) :=
      List.mem_filter.mpr ⟨hmem, decide_eq_true ⟨hother, rfl⟩⟩
    rw [hs]
    rcases Nat.le_total ((ms.filter (Home fresh (vnodeIdBucket fresh.myid p.nodei.id))).map
      kept).length fresh.bucket_sz with hle | hge
    · rw [List.take_of_length_le hle]
      exact Or.inl (List.mem_map_of_mem hhome)
    · rw [List.length_take, Nat.min_eq_left hge]
      exact Or.inr (Nat.le_refl _)
  known := by
    intro i x hx
    rw [hs] at hx
    obtain ⟨n, hn, rfl⟩ := List.mem_map.mp (List.mem_of_mem_take hx)
    rcases List.mem_append.mp (hms.mem_iff.mp (List.mem_of_mem_filter hn)) with hold | hgood
    · obtain ⟨hin, hnot⟩ := List.mem_filter.mp hold
      exact Or.inr ⟨n, h.rows ▸ List.mem_map_of_mem hin, rfl, of_decide_eq_true hnot⟩
    · obtain ⟨p, hp, rfl⟩ := List.mem_map.mp hgood
      exact Or.inl ⟨p, hp, rfl⟩
  same := by
    intro hmyid hsz hrows i
    have hnone : ns.filter (fun n => ∀ p ∈ d.space.goodPeers, p.nodei.id ≠ n.id) = [] := by
      refine List.filter_eq_nil_iff.mpr fun n hn hnot => ?_
      obtain ⟨p, hp, hid⟩ := hrows (infoRow n) (h.rows ▸ List.mem_map_of_mem hn)
      exact of_decide_eq_true hnot p hp (idWord_injective hid)
    have hhome : (fun p : Vpeer => decide (Home fresh i p.nodei)) =
        fun p => decide (Home d.space i p.nodei) := by
      funext p
      exact decide_eq_decide.mpr (home_congr hmyid i p.nodei)
    have hperm : ((ms.filter (Home fresh i)).map kept).Perm
        (((d.space.bucket i).peers.filter (isGood d.space)).map fun p => kept p.nodei) := by
      have hgood := (hms.filter (Home fresh i)).map kept
      rw [survivors, hnone, List.nil_append, List.filter_map, List.map_map] at hgood
      rw [← goodPeers_home hspace.inv i, ← hhome]
      exact hgood
    have hle : ((ms.filter (Home fresh i)).map kept).length ≤ fresh.bucket_sz := by
      rw [hperm.length_eq, List.length_map, hsz]
      exact (List.length_filter_le _ _).trans (hspace.inv i).ok.bounded
    rw [hs, List.take_of_length_le hle]
    exact hperm

theorem durableStep_sound (hsql : StoresStrings sqlite)
    (haton : ∀ ip, inetAton (inetNtoa ip) = some ip) {d : Durable} {o : DurableOp} (h : d.Sound)
    (ho : o.Allowed d) : ∃ d', durableStep sqlite inetAton d o = .ok d' ∧ d'.Sound := by
  obtain ⟨ns, hns⟩ := h.rows
  cases o with
  | op o =>
    obtain ⟨s, hs, htidied⟩ := h.tidied.exec ho
    refine ⟨{ d with space := s }, ?_, htidied, ns, hns⟩
    rw [durableStep, hs]
    rfl
  | store =>
    refine ⟨{ d with table := (survivors d.space ns).map infoRow }, ?_, h.tidied, _,
      hns.survive h.tidied⟩
    rw [durableStep, nodeSpaceStore_ok hsql h.tidied hns]
    rfl
  | load env rows =>
    obtain ⟨ms, rfl, -, hms⟩ := hns.perm ho
    obtain ⟨s, hload, htidied⟩ := nodeSpaceLoad_tidied haton env hms.storable h.tidied
    refine ⟨{ d with space := s }, ?_, htidied, ns, hns⟩
    rw [durableStep, hload]
    rfl
  | boot space => exact ⟨{ d with space := space }, rfl, NodeSpace.Empty.tidied ho, ns, hns⟩

/-- Whatever happened before, a start after a store, with the rows in any order, finds the good peers
again, and beside them only nodes that were in the table. SQLite has to read the strings that are
written, and `inet_aton` the addresses that `inet_ntoa` prints.

The steps work on the values of the records, as they are when `realloc` leaves every block in its
place, and then none of them faults. Where a block may move, merging into a stored peer is still what
the steps say, unless the merge looks into the block it has lost. -/
theorem restarts_keep_peers (hsql : StoresStrings sqlite)
    (haton : ∀ ip, inetAton (inetNtoa ip) = some ip) (hempty : space.Empty) {ops : List DurableOp}
    (hallowed : Along (durableStep sqlite inetAton) (fun d o => o.Allowed d) ⟨space, []⟩ ops) :
    ∃ d table, run (durableStep sqlite inetAton) ⟨space, []⟩ ops = .ok d ∧
      (∀ p ∈ d.space.peers, MergesInMemory p.nodei) ∧
      nodeSpaceStore sqlite d.space d.table = .ok table ∧
      ∀ env fresh rows, fresh.Empty → rows.Perm table →
        ∃ s, nodeSpaceLoad inetAton env fresh rows = .ok s ∧ Restored d fresh s := by
  have hstart : Durable.Sound ⟨space, []⟩ :=
    ⟨hempty.tidied, [], rfl, List.forall_mem_nil _, List.nodup_nil⟩
  obtain ⟨d, hrun, hd⟩ := along_total
    (fun _ _ h ho => durableStep_sound hsql haton h ho) hstart hallowed
  obtain ⟨ns, hns⟩ := hd.rows
  refine ⟨d, _, hrun, fun p hp => ?_, nodeSpaceStore_ok hsql hd.tidied hns, ?_⟩
  · exact mergesInMemory (hd.tidied.inv.peerOk hp).1 (hd.tidied.tidy p hp).distinct
  intro env fresh rows hfresh hrows
  obtain ⟨ms, s, hms, hload, hs⟩ := (hns.survive hd.tidied).load haton env hfresh hrows
  exact ⟨s, hload, hns.restored hd.tidied hms hs⟩

end Restarts

/-- A node is added and stored; after a crash it is loaded, fails to answer and is stored again. -/
def restartedOps : List DurableOp :=
  [.op (5, .addNode twoAddrPeer.nodei .byOther), .store, .boot emptySpace,
    .load (fun _ => (⟨vnodeVerUnknown, vnodeVerUnknown, zeroAddr⟩, 9)) [infoRow twoAddrPeer.nodei],
    .op (12, .kickNode twoAddrPeer.nodei.id), .store]

theorem clean_twoAddrPeer : Clean twoAddrPeer.nodei where
  pos := by decide
  le_max := by decide
  stored := by decide
  addrs := by
    unfold AddrsIn Reachable
    decide
  distinct := by
    unfold DistinctAddrs
    decide

theorem stored_twoAddrPeer :
    (spaceExec emptySpace (5, .addNode twoAddrPeer.nodei .byOther)).map
      (fun s => (survivors s []).map infoRow) = .ok [infoRow twoAddrPeer.nodei] := by
  decide +kernel

theorem restartedOps_allowed : Along (durableStep quotedStrings dottedQuad)
    (fun d o => o.Allowed d) ⟨emptySpace, []⟩ restartedOps := by
  have hempty : emptySpace.Empty := fun _ => rfl
  refine ⟨clean_twoAddrPeer, fun d hd => ⟨trivial, fun d' hd' => ⟨hempty, fun b hb => ⟨?_, ?_⟩⟩⟩⟩
  swap
  · exact fun _ _ => ⟨trivial, fun _ _ => ⟨trivial, fun _ _ => trivial⟩⟩
  obtain ⟨s, hs, htidied⟩ :=
    hempty.tidied.exec (o := (5, .addNode twoAddrPeer.nodei .byOther)) clean_twoAddrPeer
  obtain rfl : ⟨s, []⟩ = d := by
    rw [durableStep, hs] at hd
    exact Except.ok.inj hd
  have hnone : RowsOf [] [] := ⟨rfl, List.forall_mem_nil _, List.nodup_nil⟩
  have hstore := nodeSpaceStore_ok storesStrings_quotedStrings htidied hnone
  have hrows : (survivors s []).map infoRow = [infoRow twoAddrPeer.nodei] := by
    have hstored := stored_twoAddrPeer
    rw [hs] at hstored
    exact Except.ok.inj hstored
  rw [durableStep, hstore, hrows] at hd'
  obtain rfl := Except.ok.inj hd'
  obtain rfl := Except.ok.inj hb
  exact List.Perm.refl _

theorem restarts_keep_peers_stored :
    ∃ d table, run (durableStep quotedStrings dottedQuad) ⟨emptySpace, []⟩ restartedOps = .ok d ∧
      (∀ p ∈ d.space.peers, MergesInMemory p.nodei) ∧
      nodeSpaceStore quotedStrings d.space d.table = .ok table ∧
      ∀ env fresh rows, fresh.Empty → rows.Perm table →
        ∃ s, nodeSpaceLoad dottedQuad env fresh rows = .ok s ∧ Restored d fresh s :=
  restarts_keep_peers storesStrings_quotedStrings dottedQuad_inetNtoa (fun _ => rfl)
    restartedOps_allowed

end Vdht.Route
