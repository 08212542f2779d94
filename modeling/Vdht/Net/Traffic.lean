import Vdht.Lib.Traffic
import Vdht.Net.Learning

/-!
# Traffic between the nodes

A query leads to one response at most, and of the responses only the one that brings a service makes
its receiver ask again: it looks for the host of the service at its good peers. So the messages that
follow from one message are bounded by the size of the tables.
-/

namespace Vdht.Net

open Vdht.Core Dht Lib Node NodeId Route Rpc

/-! ## Silence -/

/-- No message is sent. -/
def Hush (s s' : Vroute) : Prop := sentOf s' = sentOf s

instance : IsPreorder Vroute Hush where
  refl _ := rfl
  trans _ _ _ h h' := Eq.trans h' h

theorem hush_events {s s' : Vroute} {events : List RouteEvent} (hlog : s'.log = s.log ++ events)
    (h : events.filterMap sentMsg = []) : Hush s s' := by
  rw [Hush, sentOf, hlog, List.filterMap_append, h, List.append_nil]
  rfl

theorem hush_kick (fromId : Token) (now : Int) : Moves Hush (kick fromId now) := fun _ => rfl

theorem hush_emit {e : RouteEvent} (h : sentMsg e = none) : Moves Hush (emit [e]) := fun _ =>
  hush_events rfl (List.filterMap_cons_none h)

theorem hush_passNode (leaf : Option BeNode) (nodei : VnodeInfo) (flag : AddFlag) (now : Int) :
    Moves Hush (passNode leaf nodei flag now) := by
  refine moves_bind (hush_emit rfl) fun _ s => ?_
  unfold storeNode
  split <;> exact rfl

theorem hush_passNodes (flag : AddFlag) (now : Int) (l : List (Option BeNode × VnodeInfo)) :
    Moves Hush (passNodes flag now l) := by
  induction l with
  | nil => exact moves_pure _
  | cons x l ih => exact moves_bind (hush_passNode x.1 x.2 flag now) fun _ => ih

theorem hush_passService (leaf : Option BeNode) (srvci : VsrvcInfo) (now : Int) :
    Moves Hush (passService leaf srvci now) := by
  refine moves_bind (hush_emit rfl) fun _ s => ?_
  unfold storeService
  split <;> exact rfl

theorem hush_reflexNode (laddr : SockaddrIn) (eaddr : VsockaddrIn) :
    Moves Hush (reflexNode laddr eaddr) := by
  intro s
  unfold reflexNode
  split <;> exact rfl

theorem hush_checkTickets (arg : TicketArg) : Moves Hush (checkTickets arg) := by
  intro s
  unfold checkTickets
  split
  · exact rfl
  · refine hush_events rfl (List.filterMap_eq_nil_iff.mpr fun e he => ?_)
    obtain ⟨call, -, rfl⟩ := List.mem_map.mp he
    rfl

theorem hush_withToken (nonce : Vnonce) {rest : RouteM Int} (h : Moves Hush rest) :
    Moves Hush (withToken nonce rest) := by
  refine moves_bind (hush_checkTickets _) fun found => ?_
  split
  · exact moves_bind (hush_emit rfl) fun _ => h
  · exact moves_pure _

/-- The kinds that nothing is sent for. -/
def isQuiet : DhtId → Bool
  | .pingRsp | .findNodeRsp | .findClosestNodesRsp | .reflexRsp | .probeRsp | .postService => true
  | _ => false

/-- Of the kinds that are no queries only one is not quiet. -/
theorem loud_rsp {id : DhtId} (hrsp : rspOf id = none) (hquiet : ¬ isQuiet id = true) :
    id = .findServiceRsp := by
  cases id with
  | findServiceRsp => rfl
  | ping | findNode | findClosestNodes | reflex | probe | findService => cases hrsp
  | pingRsp | findNodeRsp | findClosestNodesRsp | reflexRsp | probeRsp | postService =>
    exact absurd rfl hquiet

theorem hush_routeCbOps (w : World) (m : Arrival) (ctxt : BeNode) {id : DhtId}
    (h : isQuiet id = true) : Moves Hush (routeCbOps w m ctxt id) := by
  cases id with
  | pingRsp =>
    exact moves_lift_bind fun r _ => hush_withToken _ (moves_bind (hush_passNode _ _ _ _) fun _ =>
      moves_pure _)
  | findNodeRsp =>
    exact moves_lift_bind fun r _ => hush_withToken _ (moves_bind (hush_kick _ _) fun _ =>
      moves_bind (hush_passNode _ _ _ _) fun _ => moves_pure _)
  | findClosestNodesRsp =>
    exact moves_lift_bind fun r _ => hush_withToken _ (moves_bind (hush_kick _ _) fun _ =>
      moves_bind (hush_passNodes _ _ _) fun _ => moves_pure _)
  | reflexRsp =>
    exact moves_lift_bind fun r _ => hush_withToken _ (moves_bind (hush_kick _ _) fun _ =>
      moves_bind (hush_reflexNode _ _) fun _ => moves_pure _)
  | probeRsp =>
    exact moves_lift_bind fun r _ => hush_withToken _ (moves_bind (hush_kick _ _) fun _ =>
      moves_bind (hush_checkTickets _) fun _ => moves_pure _)
  | postService =>
    exact moves_lift_bind fun r _ => moves_bind (hush_kick _ _) fun _ =>
      moves_bind (hush_passService _ _ _) fun _ => moves_pure _
  | ping | findNode | findClosestNodes | reflex | probe | findService | findServiceRsp => cases h

/-! ## Weights -/

/-- The most peers that a node space has room for. -/
def maxPeers (bucketSz : Nat) : Nat := NBUCKETS * bucketSz

theorem length_goodPeers {space : NodeSpace} (h : space.Inv) {bucketSz : Nat}
    (hsz : space.bucket_sz ≤ bucketSz) : space.goodPeers.length ≤ maxPeers bucketSz := by
  have hgood : space.goodPeers.length ≤ space.peers.length := List.length_filter_le _ _
  have hpeers : space.peers.length ≤ NBUCKETS * space.bucket_sz :=
    length_allItems_le fun i => (h i).ok.bounded
  exact (hgood.trans hpeers).trans (Nat.mul_le_mul_left _ hsz)

/-- What a message weighs: more than all messages that a node sends for it. -/
def kindWeight (bucketSz : Nat) : DhtId → Nat
  | .ping | .findNode | .findClosestNodes | .reflex | .probe => 2
  | .findService => 2 * maxPeers bucketSz + 2
  | .findServiceRsp => 2 * maxPeers bucketSz + 1
  | _ => 1

/-- What a message can still cause, by its kind and the size of the buckets. -/
def sentWeight (bucketSz : Nat) (m : Sent) : Nat := kindWeight bucketSz m.id

theorem kindWeight_rsp {id rsp : DhtId} (h : rspOf id = some rsp) (bucketSz : Nat) :
    kindWeight bucketSz rsp < kindWeight bucketSz id := by
  cases id with
  | ping | findNode | findClosestNodes | reflex | probe =>
    cases h
    exact Nat.lt_add_one 1
  | findService =>
    cases h
    exact Nat.lt_add_one _
  | pingRsp | findNodeRsp | findClosestNodesRsp | reflexRsp | probeRsp | postService
  | findServiceRsp => cases h

theorem kindWeight_pos (bucketSz : Nat) (id : DhtId) : 0 < kindWeight bucketSz id := by
  cases id <;> exact Nat.succ_pos _

theorem kindWeight_le (bucketSz : Nat) (id : DhtId) :
    kindWeight bucketSz id ≤ 2 * maxPeers bucketSz + 2 := by
  cases id <;> simp only [kindWeight] <;> omega

/-! ## What a delivery leads to -/

section Deliveries

variable {K : AddrKey → Prop} {v : World} {s : Vroute} {m : Sent} {x : Delivery} {bucketSz : Nat}

/-- The calls that look for a node: one for each good peer at most. -/
theorem probeNode_length (space : NodeSpace) (id : Token) :
    (probeNode space id).length ≤ space.goodPeers.length := by
  unfold probeNode
  dsimp only
  split
  · exact Nat.zero_le _
  · rw [forPeers_good, List.length_map]

theorem sent_asked {myid : Token} {L : List RouteEvent} {cs : List DhtCall}
    (h : List.Forall₂ (Asked myid) L cs) {id : DhtId} (hid : ∀ c ∈ cs, c.id = id) :
    (L.filterMap sentMsg).length = cs.length ∧ ∀ m ∈ L.filterMap sentMsg, m.id = id := by
  have hfor := sentFor_asked h
  refine ⟨hfor.length_eq, fun m hm => ?_⟩
  obtain ⟨c, hc, hmc⟩ := mem_of_forall₂ hfor m hm
  exact hmc.id.trans (hid c hc)

/-- After a response that brings a service its host is looked for. -/
theorem cbFindServiceRsp_asks (hs : Healthy K s) (hsz : s.node_space.bucket_sz ≤ bucketSz)
    {nonce : Vnonce} {srcId : Token} {a : VsrvcInfo} (ha : Passable a) {ctxt : BeNode}
    (hread : (DhtMsg.findServiceRsp nonce srcId a).ReadFrom ctxt) (m : Arrival) :
    ∃ new, sentOf (endState (cbFindServiceRsp v m ctxt s)) = sentOf s ++ new ∧
      new.length ≤ maxPeers bucketSz ∧ ∀ m ∈ new, m.id = .findNode := by
  obtain ⟨b, hdec, hsame⟩ := hread m.nonce m.fromId srvcRelaxBlock
  obtain ⟨hcopy, hdistinct⟩ := passable_read hsame ha
  unfold cbFindServiceRsp
  rw [hdec, bind_ok_apply (lift_ok _ s)]
  dsimp only
  rcases withToken_cases nonce _ s with ⟨-, hdrop⟩ | ⟨-, tickets, -, haccept⟩
  · rw [hdrop]
    exact ⟨[], (List.append_nil _).symm, Nat.zero_le _, fun m hm => absurd hm List.not_mem_nil⟩
  · obtain ⟨n, L, tickets', space, cs, hrun, -, hcs, hasked⟩ := serviceRead_run v
      (s := { s with tickets := tickets, log := s.log ++ [.accepted nonce] }) hs.services hcopy
      hdistinct srcId (argNode ctxt "service") m.now
      (checkTickets (.srvc (vsrvcInfoOfBytes b.data)) >>= fun _ => pure 0)
    have hspace : (noted s srcId m.now).Inv := (healthy_noted hs srcId m.now).nodes.inv
    have hid : ∀ c ∈ cs, c.id = .findNode := fun c hc => by
      obtain ⟨conn, rfl⟩ := mem_probeNode (hcs.subset hc)
      rfl
    obtain ⟨hlen, hkind⟩ := sent_asked hasked hid
    have hmost : cs.length ≤ maxPeers bucketSz :=
      (hcs.length_le.trans (probeNode_length _ _)).trans (length_goodPeers hspace hsz)
    refine ⟨L.filterMap sentMsg, ?_, hlen ▸ hmost, hkind⟩
    rw [haccept, hrun]
    have hhush : Moves Hush (checkTickets (.srvc (vsrvcInfoOfBytes b.data)) >>= fun _ => pure (0 : Int)) :=
      moves_bind (hush_checkTickets _) fun _ => moves_pure _
    refine (hhush _).trans ?_
    simp only [sentOf, List.filterMap_append, List.filterMap_cons, List.filterMap_nil, sentMsg,
      List.append_nil]

/-- What a message that is delivered weighs is more than what is sent for it. -/
theorem reply_weight (hs : Healthy K s) (hsz : s.node_space.bucket_sz ≤ bucketSz) (hx : K x.addr.key)
    {d : DhtMsg} (hd : Uttered K d m.id m.nonce m.msg) :
    ∃ new, sentOf (hostRcv v x ((auxVhostPackMsgCb VMSG_DHT m.msg).getD []) s) = sentOf s ++ new ∧
      (new.map (sentWeight bucketSz)).sum < sentWeight bucketSz m := by
  cases hrsp : rspOf m.id with
  | some rsp =>
    have hanswered := healthy_answered (v := v) hs hx hd hrsp
    by_cases hout : Has s x.m.now d ∧ goesOut v s rsp = true
    · obtain ⟨d', out, -, -, hsent⟩ := hanswered.answer hout.1 hout.2
      exact ⟨_, hsent, kindWeight_rsp hrsp bucketSz⟩
    · refine ⟨[], ?_, kindWeight_pos bucketSz m.id⟩
      rw [hanswered.silence hout, List.append_nil]
  | none =>
    obtain ⟨ctxt, hread, hstep⟩ := uttered_handled hd v x s
    rw [hstep, hd.id_eq]
    by_cases hquiet : isQuiet m.id = true
    · refine ⟨[], ?_, kindWeight_pos bucketSz m.id⟩
      rw [List.append_nil]
      exact hush_routeCbOps v x.arrival ctxt hquiet s
    · have hid := loud_rsp hrsp hquiet
      have hid' := hd.id_eq.trans hid
      cases d with
      | findServiceRsp nonce srcId a =>
        obtain ⟨new, hsent, hlen, hnew⟩ :=
          cbFindServiceRsp_asks (v := v) hs hsz hd.sayable hread x.arrival
        rw [hid]
        refine ⟨new, hsent, ?_⟩
        have hsum : (new.map (sentWeight bucketSz)).sum = new.length * 2 := by
          rw [List.map_congr_left (g := fun _ => 2) fun m hm => by rw [sentWeight, hnew m hm]; rfl]
          rw [List.map_const', List.sum_replicate_nat]
        rw [hsum, sentWeight, hid]
        show _ < 2 * maxPeers bucketSz + 1
        omega
      | ping | pingRsp | findNode | findNodeRsp | findClosestNodes | findClosestNodesRsp | reflex
      | reflexRsp | probe | probeRsp | postService | findService => cases hid'

end Deliveries

/-! ## Runs -/

theorem spaceExec_bucketSz {space t : NodeSpace} {op : Int × SpaceOp}
    (h : spaceExec space op = .ok t) : t.bucket_sz = space.bucket_sz := by
  show t.config.bucket_sz = space.config.bucket_sz
  rw [(spaceExec_from h).1]

/-- No operation changes the size of the buckets. -/
theorem effect_bucketSz {v : World} {op : RouteOp} {s s' : Vroute} (h : Effect v op s s') :
    s'.node_space.bucket_sz = s.node_space.bucket_sz := by
  cases h with
  | nodes _ h => exact spaceExec_bucketSz h
  | punched _ _ _ hspace _ =>
    exact run_invariant (I := fun t : NodeSpace => t.bucket_sz = s.node_space.bucket_sz)
      (P := fun _ => True) (fun t o t' ht _ h => (spaceExec_bucketSz h).trans ht) rfl
      (fun _ _ => trivial) hspace
  | lost | asked | answered | accepted | nodeRead | srvcRead | srvcStored | reflexed | waits | told
  | reaped | cleared => rfl

section Runs

variable {ι : Type} {w : ι → World} [DecidableEq ι] {start : ι → Vroute}
  {ops : List (NetOp ι RouteOp Delivery)}

theorem netRun_bucketSz (i : ι) :
    (netRun (nodes w) start ops i).node_space.bucket_sz = (start i).node_space.bucket_sz := by
  refine netRun_keeps (w := w)
    (I := fun i s => s.node_space.bucket_sz = (start i).node_space.bucket_sz) ?_ (fun _ => rfl) ops i
  intro i op s hs
  exact Effects.invariant (I := fun s => s.node_space.bucket_sz = (start i).node_space.bucket_sz)
    (fun _ _ hs h => (effect_bucketSz h).trans hs) (acts_routeOp op s) hs

/-- The networks that are reached from the start. -/
def Reached (w : ι → World) (start net : ι → Vroute) : Prop :=
  ∃ ops, AllSound ops ∧ netRun (nodes w) start ops = net

theorem subsides (hready : ∀ i, Ready (start i)) {bucketSz : Nat}
    (hsz : ∀ i, (start i).node_space.bucket_sz ≤ bucketSz) :
    Subsides (nodes w) (sentWeight bucketSz) (Reached w start) := by
  rintro net src k j x m ⟨ops, hops, rfl⟩ hm
  have hhealthy := netRun_anywhere (w := w) hready hops
  constructor
  · refine ⟨ops ++ [.deliver src k j x], allSound_append hops ?_, netRun_snoc _ _ _⟩
    exact allSound_deliver allSound_nil src k j x
  · obtain ⟨d, hd⟩ := (hhealthy src).sent _ _ _ _ (mem_sent (List.mem_of_getElem? hm))
    exact reply_weight (hhealthy j) ((netRun_bucketSz j).trans_le (hsz j)) trivial hd

/-- In every run of finitely many nodes that start sound, with an address of their own and buckets of at
most `bucketSz` places, whose users announce records as a node registers them: when the users and the
timers rest and no message comes a second time, the traffic ends. Not more messages are heard from then
on than a fixed number, given by the size of the tables, for each message that was sent before, whatever
the order in which they come and whichever nodes they reach. The buckets and the tickets are taken as
lists. -/
theorem traffic_dies_down [Fintype ι] (w : ι → World) {start : ι → Vroute}
    (hready : ∀ i, Ready (start i)) {bucketSz : Nat}
    (hsz : ∀ i, (start i).node_space.bucket_sz ≤ bucketSz) {ops : List (NetOp ι RouteOp Delivery)}
    (hops : AllSound ops) {net : ι → Vroute} (hnet : netRun (nodes w) start ops = net)
    {later : List (NetOp ι RouteOp Delivery)} (hlater : ∀ o ∈ later, o.IsDelivery)
    (honce : (heard (nodes w) net later).Nodup) :
    (heard (nodes w) net later).length ≤
      (2 * maxPeers bucketSz + 2) * ∑ i, (sentOf (net i)).length := by
  have hheard := (subsides (w := w) hready hsz).heard_le ⟨ops, hops, hnet⟩ hlater honce
  refine hheard.trans ?_
  rw [Finset.mul_sum]
  refine Finset.sum_le_sum fun i _ => ?_
  have hlist := List.sum_le_card_nsmul ((sentOf (net i)).map (sentWeight bucketSz))
    (2 * maxPeers bucketSz + 2) fun n hn => ?_
  · rwa [List.length_map, Nat.nsmul_eq_mul, Nat.mul_comm] at hlist
  · obtain ⟨m, -, rfl⟩ := List.mem_map.mp hn
    exact kindWeight_le bucketSz m.id

end Runs

/-- The ping of node 0 and its response. -/
def exchange : List (NetOp Bool RouteOp Delivery) :=
  [.deliver false 0 true plainDelivery, .deliver true 0 false plainDelivery]

theorem heard_exchange :
    heard (nodes pairWorld) joinedNet exchange = [(false, 0), (true, 0)] := by
  decide +kernel

theorem traffic_dies_down_exchange :
    (heard (nodes pairWorld) joinedNet exchange).length = 2 ∧
      (heard (nodes pairWorld) joinedNet exchange).length ≤
        (2 * maxPeers (readyNode false).node_space.bucket_sz + 2) *
          ∑ i, (sentOf (joinedNet i)).length := by
  have hheard := heard_exchange
  have hnet : netRun (nodes pairWorld) readyNode joinOps = joinedNet := rfl
  generalize joinedNet = net at *
  refine ⟨by rw [hheard]; rfl, ?_⟩
  refine traffic_dies_down pairWorld ready_readyNode (fun i => ?_) allSound_joinOps hnet ?_ ?_
  · cases i <;> exact Nat.le_refl _
  · simp only [exchange, List.forall_mem_cons]
    exact ⟨trivial, trivial, fun o ho => absurd ho List.not_mem_nil⟩
  · rw [hheard]
    decide

end Vdht.Net
