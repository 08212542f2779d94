import Vdht.Lib.Keyed
import Vdht.NodeId.Order
import Vdht.Route.Peers

/-!
# Connectivity probes

`probe_connectivity` counts the addresses of a peer with `j` and takes the address at `i`, which
stays 0: a peer that is probed gets as many probes as it has addresses, and all of them go to the
first one.
-/

namespace Vdht.Route

open NodeId Lib

variable {space s : NodeSpace} {laddr : VsockaddrIn} {p : Vpeer}

/-- The probe of one of the addresses of a peer from a local address. -/
def probeTo (laddr : VsockaddrIn) (p : Vpeer) (a : VsockaddrIn) : DhtCall :=
  .probe (vnodeConnSet laddr a) p.nodei.id

/-- One probe to each address of a peer that is to be probed. -/
def owedProbes (space : NodeSpace) (laddr : VsockaddrIn) (p : Vpeer) : List DhtCall :=
  if wantsProbe space p then p.nodei.used.map (probeTo laddr p) else []

/-- The probes that are sent. -/
def sentProbes (space : NodeSpace) (laddr : VsockaddrIn) (p : Vpeer) : List DhtCall :=
  if wantsProbe space p then
    p.nodei.used.map fun _ => probeTo laddr p (p.nodei.used.headD zeroAddr)
  else []

/-- The peer with the probe counted. -/
def probedPeer (space : NodeSpace) (p : Vpeer) : Vpeer :=
  if wantsProbe space p then { p with ntry_probes := p.ntry_probes + 1 } else p

/-- The addresses do not differ in what a connection takes of them. -/
def OneTarget (n : VnodeInfo) : Prop :=
  ∀ a ∈ n.used, ∀ b ∈ n.used, a.addr = b.addr ∧ baseType a = baseType b

/-! ## What is sent -/

theorem PeerOk.used_cons (h : PeerOk p) :
    ∃ a l, p.nodei.used = a :: l ∧ getSlot p.nodei.addrs 0 = .ok a := by
  have hlen := h.1.length_used
  have hpos := h.2
  have hne : p.nodei.used ≠ [] := by
    intro hnil
    rw [hnil, List.length_nil] at hlen
    omega
  obtain ⟨a, l, hused⟩ := List.exists_cons_of_ne_nil hne
  refine ⟨a, l, hused, ?_⟩
  rw [← p.nodei.used_append, hused, List.cons_append]
  rfl

theorem probeCalls_eq (h : PeerOk p) (laddr : VsockaddrIn) :
    probeCalls laddr p =
      .ok (p.nodei.used.map fun _ => probeTo laddr p (p.nodei.used.headD zeroAddr)) := by
  obtain ⟨a, l, hused, hget⟩ := h.used_cons
  have hlen := h.1.length_used
  have hpos := h.2
  have hturns : p.nodei.naddrs.toNat = p.nodei.used.length := by omega
  rw [probeCalls, if_neg (by omega), hget]
  dsimp only
  rw [hturns, List.map_const', hused]
  rfl

theorem probePeers_eq {ps : List Vpeer} (h : ∀ p ∈ ps, PeerOk p) :
    probePeers space laddr ps =
      .ok (ps.map (probedPeer space), ps.flatMap (sentProbes space laddr)) := by
  induction ps with
  | nil => rfl
  | cons p ps ih =>
    obtain ⟨hp, hps⟩ := List.forall_mem_cons.mp h
    rw [probePeers, List.map_cons, List.flatMap_cons, probedPeer, sentProbes]
    split
    · rw [probeCalls_eq hp]
      dsimp only
      rw [ih hps]
    · rw [ih hps]
      rfl

/-- A step that neither faults nor looks at other buckets. -/
theorem eachBucket_pure {step : Fin NBUCKETS → Bucket → Res (Bucket × List DhtCall)}
    {f : Bucket → Bucket} {calls : Bucket → List DhtCall} {is : List (Fin NBUCKETS)}
    (hnodup : is.Nodup)
    (hstep : ∀ i ∈ is, step i (space.bucket i) = .ok (f (space.bucket i), calls (space.bucket i))) :
    ∃ s, eachBucket step space is = .ok (s, is.flatMap fun i => calls (space.bucket i)) ∧
      s.config = space.config ∧
      ∀ i, s.bucket i = if i ∈ is then f (space.bucket i) else space.bucket i := by
  induction is generalizing space with
  | nil => exact ⟨space, rfl, rfl, by simp⟩
  | cons j is ih =>
    obtain ⟨hj, hnodup⟩ := List.nodup_cons.mp hnodup
    obtain ⟨hhead, hstep⟩ := List.forall_mem_cons.mp hstep
    have hset : ∀ i ∈ is,
        (space.setBucket j (f (space.bucket j))).bucket i = space.bucket i := by
      intro i hi
      have hne : i ≠ j := fun heq => hj (heq ▸ hi)
      exact Function.update_of_ne hne _ _
    have hnext : ∀ i ∈ is, step i ((space.setBucket j (f (space.bucket j))).bucket i) =
        .ok (f ((space.setBucket j (f (space.bucket j))).bucket i),
          calls ((space.setBucket j (f (space.bucket j))).bucket i)) := by
      intro i hi
      rw [hset i hi]
      exact hstep i hi
    obtain ⟨s, hs, hconfig, hbucket⟩ := ih hnodup hnext
    have hcalls : (is.flatMap fun i =>
        calls ((space.setBucket j (f (space.bucket j))).bucket i)) =
          is.flatMap fun i => calls (space.bucket i) :=
      List.flatMap_congr fun i hi => by rw [hset i hi]
    refine ⟨s, ?_, hconfig, fun i => ?_⟩
    · rw [eachBucket, hhead]
      dsimp only
      rw [hs, hcalls]
      rfl
    · rw [hbucket]
      by_cases hij : i = j
      · subst hij
        rw [if_neg hj, if_pos List.mem_cons_self]
        exact Function.update_self ..
      · have hsame : (space.setBucket j (f (space.bucket j))).bucket i = space.bucket i :=
          Function.update_of_ne hij _ _
        rw [hsame]
        simp only [List.mem_cons, hij, false_or]

/-- The probes of one call, and the space that it leaves. -/
theorem probeConnectivity_eq (h : space.Inv) (laddr : VsockaddrIn) :
    ∃ s, probeConnectivity space laddr =
        .ok (s, space.peers.flatMap (sentProbes space laddr)) ∧
      s.config = space.config ∧
      ∀ i, s.bucket i = { space.bucket i with
        peers := (space.bucket i).peers.map (probedPeer space) } := by
  rw [probeConnectivity, NodeSpace.peers, allItems, List.flatMap_assoc]
  refine (@eachBucket_pure space _ (fun b => { b with peers := b.peers.map (probedPeer space) })
    (fun b => b.peers.flatMap (sentProbes space laddr)) _ (List.nodup_finRange NBUCKETS)
    fun i _ => ?_).imp fun s hs => ⟨hs.1, hs.2.1, fun i => ?_⟩
  · rw [probePeers_eq (h i).records]
  · rw [hs.2.2, if_pos (List.mem_finRange i)]

/-! ## What is owed -/

theorem vnodeConnSet_inj {a b : VsockaddrIn} :
    vnodeConnSet laddr a = vnodeConnSet laddr b ↔ a.addr = b.addr ∧ baseType a = baseType b := by
  rw [vnodeConnSet, vnodeConnSet, VnodeConn.mk.injEq]
  constructor
  · rintro ⟨hprio, -, haddr⟩
    refine ⟨haddr, UInt32.toNat_inj.mp ?_⟩
    rw [baseType, baseType]
    omega
  · rintro ⟨haddr, hbase⟩
    rw [baseType, baseType] at hbase
    exact ⟨by rw [hbase], rfl, haddr⟩

theorem sentProbes_perm_iff :
    (sentProbes space laddr p).Perm (owedProbes space laddr p) ↔
      (wantsProbe space p = true → OneTarget p.nodei) := by
  rw [sentProbes, owedProbes]
  by_cases hwant : wantsProbe space p = true
  · rw [if_pos hwant, if_pos hwant, List.map_const', List.replicate_perm]
    cases hused : p.nodei.used with
    | nil =>
      refine iff_of_true rfl fun _ a ha => ?_
      rw [hused] at ha
      cases ha
    | cons a l =>
      have hall : (a :: l).map (probeTo laddr p) =
          List.replicate (a :: l).length (probeTo laddr p a) ↔
            ∀ b ∈ a :: l, b.addr = a.addr ∧ baseType b = baseType a := by
        rw [List.eq_replicate_iff, List.length_map, eq_self_iff_true, true_and]
        simp only [List.mem_map, forall_exists_index, and_imp, forall_apply_eq_imp_iff₂, probeTo,
          DhtCall.probe.injEq, vnodeConnSet_inj, and_true]
      rw [List.headD_cons, eq_comm, hall]
      unfold OneTarget
      rw [hused]
      constructor
      · intro h _ b hb c hc
        obtain ⟨hba, hba'⟩ := h b hb
        obtain ⟨hca, hca'⟩ := h c hc
        exact ⟨hba.trans hca.symm, hba'.trans hca'.symm⟩
      · exact fun h b hb => h hwant b hb a List.mem_cons_self
  · rw [if_neg hwant, if_neg hwant]
    exact iff_of_true (List.Perm.refl _) fun h => absurd h hwant

/-- The id of the node that a call probes, where it is a probe. -/
def callTarget : DhtCall → Option Token
  | .probe _ id => some id
  | _ => none

/-- The addresses of a record differ, so it has one target when it has one address. -/
theorem oneTarget_iff {n : VnodeInfo} (hn : n.Sound) (hd : DistinctAddrs n.used) :
    OneTarget n ↔ n.naddrs ≤ 1 := by
  have hlen := hn.length_used
  rw [← hlen, OneTarget]
  cases hused : n.used with
  | nil => exact iff_of_true (fun a ha => absurd ha List.not_mem_nil) (by decide)
  | cons a l =>
    cases l with
    | nil =>
      refine iff_of_true (fun b hb c hc => ?_) (Int.le_refl 1)
      rw [List.mem_singleton.mp hb, List.mem_singleton.mp hc]
      exact ⟨rfl, rfl⟩
    | cons b l =>
      rw [hused] at hd
      refine iff_of_false (fun h => ?_) (by simp only [List.length_cons]; omega)
      have hsame := (h a List.mem_cons_self b (List.mem_cons_of_mem _ List.mem_cons_self)).1
      have hdiff := (List.pairwise_cons.mp hd).1 b List.mem_cons_self
      rw [hsame, vsockaddrEqual_refl] at hdiff
      cases hdiff

/-- A call succeeds, counts one probe for every peer that is to be probed and leaves everything else
as it is. It sends one probe to each address of these peers and none elsewhere if and only if none
of them has two targets. -/
theorem probes_iff (h : space.Inv) (laddr : VsockaddrIn) :
    ∃ s calls, probeConnectivity space laddr = .ok (s, calls) ∧ s.config = space.config ∧
      (∀ i, s.bucket i = { space.bucket i with
        peers := (space.bucket i).peers.map (probedPeer space) }) ∧
      (calls.Perm (space.peers.flatMap (owedProbes space laddr)) ↔
        ∀ p ∈ space.peers, wantsProbe space p = true → OneTarget p.nodei) ∧
      ∀ p ∈ space.peers, DistinctAddrs p.nodei.used →
        (OneTarget p.nodei ↔ p.nodei.naddrs ≤ 1) := by
  obtain ⟨s, hs, hconfig, hbucket⟩ := probeConnectivity_eq h laddr
  refine ⟨s, _, hs, hconfig, hbucket, ?_, fun p hp => oneTarget_iff (h.peerOk hp).1⟩
  have hnodup : (space.peers.map fun p => some p.nodei.id).Nodup := by
    have hids := h.placed.distinct.map (Option.some_injective Token)
    rwa [List.map_map] at hids
  have htarget : ∀ p : Vpeer, ∀ a, callTarget (probeTo laddr p a) = some p.nodei.id := fun _ _ => rfl
  rw [@flatMap_perm_iff _ _ _ _ _ callTarget _ _ _ hnodup]
  · exact forall₂_congr fun p _ => sentProbes_perm_iff
  · intro p _ c hc
    rw [sentProbes] at hc
    split at hc
    · obtain ⟨a, -, rfl⟩ := List.mem_map.mp hc
      exact htarget p _
    · cases hc
  · intro p _ c hc
    rw [owedProbes] at hc
    split at hc
    · obtain ⟨a, -, rfl⟩ := List.mem_map.mp hc
      exact htarget p a
    · cases hc

/-- A space without peers. -/
def freshSpace : NodeSpace := nodeSpaceInit zeroAddr.addr 1 10 (Block.zero 20) (Block.zero 20)

/-- A node of a known version with two addresses. -/
def twoAddrNode : VnodeInfo where
  naddrs := 2
  capc := 4
  addrs := [⟨portAddr 1, VSOCKADDR_LOCAL⟩, ⟨portAddr 2, VSOCKADDR_LOCAL⟩]
  id := Block.ofList VTOKEN_LEN [1]
  ver := Block.ofList VTOKEN_LEN [1]
  weight := 0

theorem twoAddrNode_wellFormed : twoAddrNode.WellFormed :=
  ⟨by simp [twoAddrNode], by simp [twoAddrNode, MAX_ADDRS], by simp [twoAddrNode]⟩

theorem probes_iff_two :
    ∃ space s calls, addNode freshSpace twoAddrNode .byOther 0 = .ok space ∧
      probeConnectivity space zeroAddr = .ok (s, calls) ∧ s.config = space.config := by
  obtain ⟨space, hspace, hinv⟩ := addNode_ok (inv_init _ _ _ _ _) twoAddrNode_wellFormed .byOther 0
  obtain ⟨s, calls, hs, hconfig, -⟩ := probes_iff hinv zeroAddr
  exact ⟨space, s, calls, hspace, hs, hconfig⟩

/-- The port at which a call probes a node, and `0` for the other calls. -/
def callPort : DhtCall → UInt16
  | .probe conn _ => conn.raddr.sin_port
  | _ => 0

/-- Both probes go to the first address. -/
theorem twoAddrNode_probes :
    ((addNode freshSpace twoAddrNode .byOther 0).bind fun space =>
      (probeConnectivity space zeroAddr).map fun r =>
        (r.2.map callPort, (space.peers.flatMap (owedProbes space zeroAddr)).map callPort)) =
      .ok ([1, 1], [1, 2]) := by
  decide +kernel

theorem second_address_not_probed :
    ¬ ∀ space : NodeSpace, space.Inv → ∀ laddr s calls,
      probeConnectivity space laddr = .ok (s, calls) →
      calls.Perm (space.peers.flatMap (owedProbes space laddr)) := by
  intro h
  obtain ⟨space, hspace, hinv⟩ := addNode_ok (inv_init _ _ _ _ _) twoAddrNode_wellFormed .byOther 0
  have hports := twoAddrNode_probes
  rw [show addNode freshSpace twoAddrNode .byOther 0 = .ok space from hspace] at hports
  obtain ⟨⟨s, calls⟩, hprobe, hsent⟩ := map_ok hports
  obtain ⟨hcalls, howed⟩ := Prod.mk.inj hsent
  have hperm := (h space hinv zeroAddr s calls hprobe).map callPort
  rw [howed, show calls.map callPort = [1, 1] from hcalls] at hperm
  exact absurd hperm (by decide)

end Vdht.Route
