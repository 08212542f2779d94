import Vdht.Net.Answers
import Vdht.Route.Learning

/-!
# What travels through the network

A ping makes its receiver known to whoever gets the response, an announcement makes a service
known to whoever gets it, and a lookup shows the service to the user who waits for it. Between the
steps anything may happen: a message may be late, come again or go astray.
-/

namespace Vdht.Net

open Vdht.Core Dht Lib NodeId Route Rpc

section Runs

variable {ι : Type} {w : ι → World} [DecidableEq ι] {net : ι → Vroute}

/-- What was sent stays sent. -/
theorem sentOf_kept {w : ι → World} (net : ι → Vroute) (ops : List (NetOp ι RouteOp Delivery)) (i : ι) :
    sentOf (net i) <+: sentOf (netRun (nodes w) net ops i) := by
  have hlog := netRun_moves (P := nodes w) (R := fun s s' => s.log <+: s'.log)
    (fun _ => List.prefix_refl _) (fun h h' => h.trans h') (fun i l s => nodes_log i l s) net ops i
  exact hlog.filterMap _

theorem sent_later {i : ι} {k : Nat} {m : Sent} (hm : (sentOf (net i))[k]? = some m)
    (later : List (NetOp ι RouteOp Delivery)) :
    (sentOf (netRun (nodes w) net later i))[k]? = some m := by
  obtain ⟨hk, hget⟩ := List.getElem?_eq_some_iff.mp hm
  have hlate := List.prefix_iff_getElem?.mp (sentOf_kept (w := w) net later i) k hk
  rwa [hget] at hlate

/-- A message that is delivered late. -/
theorem late_delivery {K : AddrKey → Prop} {i : ι} {k : Nat} {m : Sent} {d : DhtMsg}
    (hd : Uttered K d m.id m.nonce m.msg) (hm : (sentOf (net i))[k]? = some m)
    (later : List (NetOp ι RouteOp Delivery)) (j : ι) (x : Delivery) :
    ∃ ctxt, d.ReadFrom ctxt ∧
      netStep (nodes w) (netRun (nodes w) net later) (.deliver i k j x) j =
        endState (routeCbOps (w j) x.arrival ctxt d.id (netRun (nodes w) net later j)) := by
  obtain ⟨ctxt, hread, hstep⟩ := uttered_handled hd (w j) x (netRun (nodes w) net later j)
  refine ⟨ctxt, hread, ?_⟩
  rw [netStep_deliver (sent_later hm later), Function.update_self, hstep]

/-- A query is answered, and the response is delivered late. -/
theorem late_answer {K : AddrKey → Prop} {i j : ι} (h : Healthy K (net j)) {k : Nat} {m : Sent}
    {q : DhtMsg} (hq : Uttered K q m.id m.nonce m.msg) (hm : (sentOf (net i))[k]? = some m)
    {r : DhtId} (hrsp : rspOf m.id = some r) {x : Delivery} (hx : K x.addr.key)
    (hhas : Has (net j) x.m.now q) (hout : goesOut (w j) (net j) r = true) :
    ∃ d, AnswerTo (net j) x.arrival q d ∧ Sayable K d ∧
      ∀ (later : List (NetOp ι RouteOp Delivery)) (a : ι) (y : Delivery), ∃ ctxt, d.ReadFrom ctxt ∧
        netStep (nodes w) (netRun (nodes w) net (.deliver i k j x :: later))
            (.deliver j (sentOf (net j)).length a y) a =
          endState (routeCbOps (w a) y.arrival ctxt r
            (netRun (nodes w) net (.deliver i k j x :: later) a)) := by
  obtain ⟨d, out, hanswer, hd, hsent⟩ :=
    (deliver_answered (w := w) h hq hm hrsp hx).answer hhas hout
  refine ⟨d, hanswer, hd.sayable, fun later a y => ?_⟩
  have hnew : (sentOf (netStep (nodes w) net (.deliver i k j x) j))[(sentOf (net j)).length]? =
      some ⟨r, x.arrival.conn, q.nonce, out⟩ := by
    rw [hsent]
    exact List.getElem?_concat_length
  obtain ⟨ctxt, hread, hstep⟩ := late_delivery hd hnew later a y
  rw [hd.id_eq] at hstep
  exact ⟨ctxt, hread, hstep⟩

omit [DecidableEq ι] in
theorem allSound_nil : AllSound ([] : List (NetOp ι RouteOp Delivery)) :=
  fun _ _ h => absurd h List.not_mem_nil

omit [DecidableEq ι] in
theorem allSound_append {ops later : List (NetOp ι RouteOp Delivery)} (hops : AllSound ops)
    (hlater : AllSound later) : AllSound (ops ++ later) := by
  intro i op hop
  rcases List.mem_append.mp hop with hop | hop
  · exact hops i op hop
  · exact hlater i op hop

/-- A run that goes on. -/
theorem healthy_onwards {start : ι → Vroute} (hready : ∀ i, Ready (start i))
    {ops later : List (NetOp ι RouteOp Delivery)} (hops : AllSound ops) (hlater : AllSound later)
    (i : ι) : Healthy (fun _ => True) (netRun (nodes w) (netRun (nodes w) start ops) later i) := by
  rw [← netRun_append]
  exact netRun_anywhere hready (allSound_append hops hlater) i

omit [DecidableEq ι] in
theorem allSound_deliver {later : List (NetOp ι RouteOp Delivery)} (h : AllSound later) (i : ι)
    (k : Nat) (j : ι) (x : Delivery) : AllSound (.deliver i k j x :: later) := by
  intro b op hop
  rcases List.mem_cons.mp hop with heq | hop
  · cases heq
  · exact h b op hop

omit [DecidableEq ι] in
theorem allSound_act {later : List (NetOp ι RouteOp Delivery)} (h : AllSound later) (i : ι)
    {op : RouteOp} (hop : Sound op) : AllSound (.act i op :: later) := by
  intro b op' hmem
  rcases List.mem_cons.mp hmem with heq | hmem
  · cases heq
    exact hop
  · exact h b op' hmem

/-! ## Pings -/

/-- In every run of nodes that start sound, with an address of their own, whose users announce records
as a node registers them: when a ping reaches a node whose queue has room and whose `ping_rsp` is
enabled, the node answers it. Whichever node gets that response, after any other events, has the node
that was pinged among its peers then, alive, provided that it still awaits the nonce, is not that node
itself, and knows it or has room in its bucket. The buckets and the tickets are taken as lists. -/
theorem pings_introduce (w : ι → World) {start : ι → Vroute} (hready : ∀ i, Ready (start i))
    {ops : List (NetOp ι RouteOp Delivery)} (hops : AllSound ops) {net : ι → Vroute}
    (hnet : netRun (nodes w) start ops = net) {i : ι} {k : Nat} {m : Sent}
    (hm : (sentOf (net i))[k]? = some m) (hping : m.id = .ping) {j : ι}
    (hout : goesOut (w j) (net j) .pingRsp = true) (x : Delivery)
    {later : List (NetOp ι RouteOp Delivery)} (hlater : AllSound later) {net' : ι → Vroute}
    (hnet' : netRun (nodes w) net (.deliver i k j x :: later) = net') {a : ι}
    (hnonce : m.nonce ∈ outstanding (net' a).tickets)
    (hother : (net j).node.nodei.id ≠ (net' a).node_space.myid)
    (hroom : Welcomes (net' a).node_space (net j).node.nodei.id) (y : Delivery) :
    ∃ p ∈ (netStep (nodes w) net' (.deliver j (sentOf (net j)).length a y) a).node_space.peers,
      p.Alive (net j).node.nodei.id y.m.now := by
  subst hnet hnet'
  have hhealthy := netRun_anywhere (w := w) hready hops
  have hhealthy' := healthy_onwards (w := w) hready hops (allSound_deliver hlater i k j x) a
  obtain ⟨q, hq⟩ := (hhealthy i).sent _ _ _ _ (mem_sent (List.mem_of_getElem? hm))
  have hid := hq.id_eq.trans hping
  cases q with
  | ping nonce srcId =>
    obtain ⟨d, hanswer, hsay, hlate⟩ := late_answer (hhealthy j) hq hm (r := .pingRsp)
      (by rw [hping]; rfl) (x := x) trivial trivial hout
    cases hanswer
    obtain ⟨ctxt, hread, hstep⟩ := hlate later a y
    obtain rfl : nonce = m.nonce := hq.nonce_eq
    rw [hstep]
    exact cbPingRsp_greets hhealthy' hsay.2 hread hnonce hother hroom
  | pingRsp | findNode | findNodeRsp | findClosestNodes | findClosestNodesRsp | reflex | reflexRsp
  | probe | probeRsp | postService | findService | findServiceRsp => cases hid

/-! ## Calls -/

/-- A message that a call has led to. -/
structure SentFor (myid : Token) (m : Sent) (c : DhtCall) : Prop where
  id : m.id = c.id
  conn : m.conn = c.conn
  written : (c.message m.nonce myid).encode = .ok (some m.msg)

theorem sentFor_asked {myid : Token} {L : List RouteEvent} {calls : List DhtCall}
    (h : List.Forall₂ (Asked myid) L calls) :
    List.Forall₂ (SentFor myid) (L.filterMap sentMsg) calls := by
  induction h with
  | nil => exact .nil
  | cons hasked _ ih =>
    obtain ⟨nonce, out, rfl, hout⟩ := hasked
    exact .cons ⟨rfl, rfl, hout⟩ ih

theorem SentFor.uttered {myid : Token} {m : Sent} {c : DhtCall} (h : SentFor myid m c)
    (hsay : Sayable (fun _ => True) (c.message m.nonce myid)) :
    Uttered (fun _ => True) (c.message m.nonce myid) m.id m.nonce m.msg :=
  ⟨hsay, h.written, (c.message_id m.nonce myid).trans h.id.symm, c.message_nonce m.nonce myid⟩

theorem netStep_act (net : ι → Vroute) (i : ι) (op : RouteOp) :
    netStep (nodes w) net (.act i op) i = endState (routeOp (w i) op (net i)) := by
  rw [netStep_some rfl, Function.update_self]
  rfl

theorem netStep_act_other {i j : ι} (h : j ≠ i) (op : RouteOp) :
    netStep (nodes w) net (.act i op) j = net j := by
  rw [netStep_some rfl, Function.update_of_ne h]

theorem netStep_deliver_other {i j a : ι} (h : a ≠ j) (k : Nat) (x : Delivery) :
    netStep (nodes w) net (.deliver i k j x) a = net a := by
  cases hm : (sentOf (net i))[k]? with
  | none =>
    have hstep : stepOf (nodes w) net (.deliver i k j x) = none := by
      show ((sentOf (net i))[k]?).map _ = _
      rw [hm]
      rfl
    rw [netStep_none hstep]
  | some m => rw [netStep_deliver hm, Function.update_of_ne h]

theorem sentOf_act {i : ι} {op : RouteOp} {L : List RouteEvent}
    (h : (endState (routeOp (w i) op (net i))).log = (net i).log ++ L) :
    sentOf (netStep (nodes w) net (.act i op) i) = sentOf (net i) ++ L.filterMap sentMsg := by
  rw [netStep_act, sentOf, h, List.filterMap_append]
  rfl

/-- The messages of the calls, from where the call was made on. -/
theorem sentOf_new {i : ι} {op : RouteOp} {L : List RouteEvent}
    (h : (endState (routeOp (w i) op (net i))).log = (net i).log ++ L) {k : Nat} {m : Sent}
    (hk : (L.filterMap sentMsg)[k]? = some m) :
    (sentOf (netStep (nodes w) net (.act i op) i))[(sentOf (net i)).length + k]? = some m := by
  rw [sentOf_act h, List.getElem?_append_right (Nat.le_add_right _ _), Nat.add_sub_cancel_left]
  exact hk

/-! ## Announcements -/

/-- In every run of nodes that start sound, with an address of their own, whose users announce records
as a node registers them: a node whose queue has room for one message to each of its good peers, and
whose `post_service` is enabled, sends an announcement to each of them. Whichever node gets one of these
messages, after any other events, has the service in its table then, as it was announced and with the
time of its arrival, provided that the bucket holds the service already, has room or holds an older
service. The buckets and the tickets are taken as lists. -/
theorem announcements_stored (w : ι → World) {start : ι → Vroute} (hready : ∀ i, Ready (start i))
    {ops : List (NetOp ι RouteOp Delivery)} (hops : AllSound ops) {net : ι → Vroute}
    (hnet : netRun (nodes w) start ops = net) {i : ι}
    (hroom : (w i).HasRoom (net i).nmsgs (net i).node_space.goodPeers.length)
    (hprop : hasProp (net i).props .postService = true) {a : VsrvcInfo} (ha : a.Kept) (now : Int) :
    ∃ sent, sentOf (netStep (nodes w) net (.act i (.airService a now)) i) = sentOf (net i) ++ sent ∧
      List.Forall₂ (fun m p => m.id = .postService ∧ m.conn = p.conn) sent
        (net i).node_space.goodPeers ∧
      ∀ k < sent.length, ∀ later, AllSound later → ∀ j x,
        (netRun (nodes w) net (.act i (.airService a now) :: later) j).srvc_space.Takes a x.m.now →
        ∃ t ∈ (netStep (nodes w) (netRun (nodes w) net (.act i (.airService a now) :: later))
            (.deliver i ((sentOf (net i)).length + k) j x) j).srvc_space.services,
          t.StoredAs a x.m.now := by
  subst hnet
  have hpass := passable_of_kept ha
  have hair : Sound (.airService a now) := by
    refine ⟨fun _ _ _ => RouteOp.noConfusion, fun srvci t heq => ?_⟩
    cases heq
    exact ha
  obtain ⟨L, hlog, hall⟩ := airService_called (w i) hpass now (netRun (nodes w) start ops i)
  have hsent := sentFor_asked (hall hroom hprop)
  refine ⟨L.filterMap sentMsg, sentOf_act hlog, ?_, ?_⟩
  · exact (List.forall₂_map_right_iff.mp hsent).imp fun m p h => ⟨h.id, h.conn⟩
  · intro k hk later hlater j x htakes
    have hhealthy := healthy_onwards (w := w) hready hops (allSound_act hlater i hair) j
    obtain ⟨c, hc, hfor⟩ := mem_of_forall₂ hsent _ (List.getElem_mem hk)
    obtain ⟨p, -, rfl⟩ := List.mem_map.mp hc
    obtain ⟨ctxt, hread, hstep⟩ := late_delivery (w := w) (hfor.uttered hpass)
      (sentOf_new hlog (List.getElem?_eq_getElem hk)) later j x
    show ∃ t ∈ (netStep (nodes w) (netRun (nodes w) (netStep (nodes w) _ _) later) _ j).srvc_space.services, _
    rw [hstep]
    exact cbPostService_stores hhealthy hpass hread htakes

/-! ## Lookups -/

/-- In every run of nodes that start sound, with an address of their own, whose users announce records
as a node registers them: a node whose queue has room for one message to each of its good peers, and
whose `find_service` is enabled, sends a lookup to each of them, and its user waits. When one of these
messages reaches, after any other events, a node that holds a service of the hash below the bound of
100, whose queue has room and whose `find_service_rsp` is enabled, that node picks a service with the
least load. When its response gets to the first node, at any later time at which the nonce is awaited
and the user still waits, the user is called with the addresses of that service. The buckets and the
tickets are taken as lists. -/
theorem lookups_shown (w : ι → World) {start : ι → Vroute} (hready : ∀ i, Ready (start i))
    {ops : List (NetOp ι RouteOp Delivery)} (hops : AllSound ops) {net : ι → Vroute}
    (hnet : netRun (nodes w) start ops = net) {i : ι}
    (hroom : (w i).HasRoom (net i).nmsgs (net i).node_space.goodPeers.length)
    (hprop : hasProp (net i).props .findService = true) (hash : Token) (cookie : Nat) (now : Int) :
    ∃ sent,
      sentOf (netStep (nodes w) net (.act i (.probeService hash cookie now)) i) =
        sentOf (net i) ++ sent ∧
      List.Forall₂ (fun m p => m.id = .findService ∧ m.conn = p.conn) sent
        (net i).node_space.goodPeers ∧
      ⟨now, .srvc hash cookie⟩ ∈
        (netStep (nodes w) net (.act i (.probeService hash cookie now)) i).tickets ∧
      ∀ k m, sent[k]? = some m → ∀ later, AllSound later → ∀ net',
        netRun (nodes w) net (.act i (.probeService hash cookie now) :: later) = net' → ∀ j x,
        goesOut (w j) (net' j) .findServiceRsp = true →
        (∃ t ∈ (net' j).srvc_space.services, t.srvci.hash = hash ∧ t.srvci.nice.toInt < 100) →
        ∃ t ∈ (net' j).srvc_space.services, t.srvci.hash = hash ∧
          (∀ u ∈ (net' j).srvc_space.services, u.srvci.hash = hash →
            t.srvci.nice.toInt ≤ u.srvci.nice.toInt) ∧
          ∀ later', AllSound later' → ∀ net'',
            netRun (nodes w) net' (.deliver i ((sentOf (net i)).length + k) j x :: later') = net'' →
            m.nonce ∈ outstanding (net'' i).tickets →
            (∃ ticket ∈ (net'' i).tickets, ticket.info = .srvc hash cookie) → ∀ y,
            .shown ⟨cookie, hash, t.srvci.naddrs, t.srvci.proto.toInt, t.srvci.used⟩ ∈
              (netStep (nodes w) net'' (.deliver j (sentOf (net' j)).length i y) i).log := by
  subst hnet
  have hask : Sound (.probeService hash cookie now) :=
    ⟨fun _ _ _ => RouteOp.noConfusion, fun _ _ => RouteOp.noConfusion⟩
  obtain ⟨L, hlog, hwaits, hall⟩ :=
    probeService_called (w i) hash cookie now (netRun (nodes w) start ops i)
  have hsent := sentFor_asked (hall hroom hprop)
  refine ⟨L.filterMap sentMsg, sentOf_act hlog, ?_, netStep_act _ i _ ▸ hwaits, ?_⟩
  · exact (List.forall₂_map_right_iff.mp hsent).imp fun m p h => ⟨h.id, h.conn⟩
  · intro k m hk later hlater net' hnet' j x hout hhas
    have hsound := allSound_act hlater i hask
    obtain ⟨c, hc, hfor⟩ := mem_of_forall₂ hsent m (List.mem_of_getElem? hk)
    obtain ⟨p, -, rfl⟩ := List.mem_map.mp hc
    have hhealthy : ∀ b, Healthy (fun _ => True) (net' b) := fun b =>
      hnet' ▸ healthy_onwards (w := w) hready hops hsound b
    have hm : (sentOf (net' i))[(sentOf (netRun (nodes w) start ops i)).length + k]? = some m :=
      hnet' ▸ sent_later (sentOf_new hlog hk) later
    obtain ⟨d, hanswer, hsay, hlate⟩ := late_answer (w := w) (hhealthy j) (hfor.uttered trivial) hm
      (by rw [hfor.id]; rfl) (x := x) trivial hhas hout
    replace hanswer : AnswerTo (net' j) x.arrival (.findService m.nonce _ hash) d := hanswer
    cases hanswer with
    | @findService _ _ t d ht hleast hsame =>
      refine ⟨t, ht, rfl, hleast, fun later' hlater' net'' hnet'' hnonce hwait y => ?_⟩
      obtain ⟨ticket, hticket, hinfo⟩ := hwait
      obtain ⟨ctxt, hread, hstep⟩ := hlate later' i y
      rw [hnet''] at hstep
      have hhealthy'' : Healthy (fun _ => True) (net'' i) := by
        rw [← hnet'', ← hnet', ← netRun_append ops]
        exact healthy_onwards hready (allSound_append hops hsound) (allSound_deliver hlater' i _ j x) i
      rw [hstep, ← hsame.hash, ← hsame.naddrs, ← hsame.proto, ← hsame.addrs]
      exact cbFindServiceRsp_shows hhealthy'' hsay hread hnonce hticket (hsame.hash ▸ hinfo)

end Runs

/-! ## Two nodes -/

/-- Node 0 has joined node 1 and has pinged it. -/
def joinedNet : Bool → Vroute := netRun (nodes pairWorld) readyNode joinOps

theorem joinedNet_ready :
    (sentOf (joinedNet false)).length = 1 ∧
      goesOut (pairWorld true) (joinedNet true) .pingRsp = true ∧
      (joinedNet true).node.nodei.id ≠ (joinedNet false).node_space.myid ∧
      ((joinedNet false).node_space.bucket (vnodeIdBucket (joinedNet false).node_space.myid
        (joinedNet true).node.nodei.id)).peers.length < (joinedNet false).node_space.bucket_sz ∧
      ∀ m ∈ sentOf (joinedNet false), m.id = .ping ∧ m.nonce ∈ outstanding (joinedNet false).tickets := by
  decide +kernel

theorem pings_introduce_joined :
    ∃ p ∈ (netStep (nodes pairWorld)
        (netRun (nodes pairWorld) joinedNet [.deliver false 0 true plainDelivery])
        (.deliver true (sentOf (joinedNet true)).length false plainDelivery) false).node_space.peers,
      p.Alive (joinedNet true).node.nodei.id plainDelivery.m.now := by
  obtain ⟨hlen, hout, hother, hroom, hping⟩ := joinedNet_ready
  generalize hnet : joinedNet = net at *
  obtain ⟨m, hsent⟩ := List.length_eq_one_iff.mp hlen
  obtain ⟨hid, hnonce⟩ := hping m (hsent ▸ List.mem_singleton_self m)
  have hm : (sentOf (net false))[0]? = some m := by rw [hsent]; rfl
  have hframe : netRun (nodes pairWorld) net [.deliver false 0 true plainDelivery] false =
      net false := netStep_deliver_other Bool.noConfusion 0 plainDelivery
  refine pings_introduce pairWorld ready_readyNode allSound_joinOps hnet hm hid hout plainDelivery
    allSound_nil rfl ?_ ?_ ?_ plainDelivery
  · rw [hframe]
    exact hnonce
  · rw [hframe]
    exact hother
  · rw [hframe]
    exact Or.inr hroom

/-- Node 0 knows node 1. -/
def knownNet : Bool → Vroute := netRun (nodes pairWorld) readyNode (findOps.take 4)

theorem allSound_take (n : Nat) : AllSound (findOps.take n) := fun i op hop =>
  allSound_findOps i op (List.mem_of_mem_take hop)

theorem knownNet_ready :
    hasProp (knownNet false).props .postService = true ∧
      (knownNet false).node_space.goodPeers.length = 1 ∧
      ((knownNet true).srvc_space.bucket (vsrvcIdBucket storedService.hostid)).length <
        (knownNet true).srvc_space.bucket_sz := by
  decide +kernel

/-- Node 1 gets the announcement and stores it. -/
theorem announcements_stored_known :
    ∃ t ∈ (netStep (nodes pairWorld) (netStep (nodes pairWorld) knownNet
          (.act false (.airService storedService 6)))
        (.deliver false (sentOf (knownNet false)).length true plainDelivery) true).srvc_space.services,
      t.StoredAs storedService plainDelivery.m.now := by
  obtain ⟨hprop, hgood, hroom⟩ := knownNet_ready
  generalize hnet : knownNet = net at *
  obtain ⟨sent, -, hpeers, hstored⟩ := announcements_stored pairWorld ready_readyNode
    (allSound_take 4) hnet (i := false) (fun _ _ => rfl) hprop storedService_kept 6
  refine hstored 0 (by rw [hpeers.length_eq, hgood]; exact Nat.one_pos) []
    allSound_nil true plainDelivery ?_
  have hframe : netRun (nodes pairWorld) net [.act false (.airService storedService 6)] true =
      net true := @netStep_act_other Bool pairWorld _ net false true Bool.noConfusion
        (.airService storedService 6)
  rw [hframe]
  exact Or.inr (Or.inl hroom)

/-- Node 1 has stored the service that node 0 has announced. -/
def announcedNet : Bool → Vroute := netRun (nodes pairWorld) readyNode (findOps.take 6)

/-- Node 0 asks for the service. -/
def askingNet : Bool → Vroute :=
  netStep (nodes pairWorld) announcedNet (.act false (.probeService storedService.hash 2 7))

theorem askingNet_ready :
    hasProp (announcedNet false).props .findService = true ∧
      (announcedNet false).node_space.goodPeers.length = 1 ∧
      goesOut (pairWorld true) (askingNet true) .findServiceRsp = true ∧
      (∃ t ∈ (askingNet true).srvc_space.services,
        t.srvci.hash = storedService.hash ∧ t.srvci.nice.toInt < 100) ∧
      ∀ m ∈ (sentOf (askingNet false)).drop (sentOf (announcedNet false)).length,
        m.nonce ∈ outstanding (askingNet false).tickets := by
  decide +kernel

/-- The user of node 0 is shown the service. -/
theorem lookups_shown_announced :
    ∃ t ∈ (askingNet true).srvc_space.services, t.srvci.hash = storedService.hash ∧
      .shown ⟨2, storedService.hash, t.srvci.naddrs, t.srvci.proto.toInt, t.srvci.used⟩ ∈
        (netStep (nodes pairWorld) (netStep (nodes pairWorld) askingNet
            (.deliver false (sentOf (announcedNet false)).length true plainDelivery))
          (.deliver true (sentOf (askingNet true)).length false plainDelivery) false).log := by
  obtain ⟨hprop, hgood, hout, hhas, hnonce⟩ := askingNet_ready
  have hasking : askingNet = netRun (nodes pairWorld) announcedNet
      [.act false (.probeService storedService.hash 2 7)] := rfl
  generalize askingNet = asking at *
  generalize hnet : announcedNet = net at *
  obtain ⟨sent, hsent, hpeers, hwaits, hlookup⟩ := lookups_shown pairWorld ready_readyNode
    (allSound_take 6) hnet (i := false) (fun _ _ => rfl) hprop storedService.hash 2 7
  replace hsent : sentOf (asking false) = sentOf (net false) ++ sent := hasking ▸ hsent
  obtain ⟨m, hm⟩ := List.length_eq_one_iff.mp (hpeers.length_eq.trans hgood)
  obtain ⟨t, ht, hhash, -, hshown⟩ := hlookup 0 m (by rw [hm]; rfl) [] allSound_nil asking hasking.symm true
    plainDelivery hout hhas
  refine ⟨t, ht, hhash, ?_⟩
  have hframe : netRun (nodes pairWorld) asking [.deliver false (sentOf (net false)).length true
      plainDelivery] false = asking false := netStep_deliver_other Bool.noConfusion _ plainDelivery
  refine hshown [] allSound_nil _ rfl ?_ ⟨⟨7, .srvc storedService.hash 2⟩, ?_, rfl⟩ plainDelivery
  · rw [Nat.add_zero, hframe]
    refine hnonce m ?_
    rw [hsent, List.drop_left, hm]
    exact List.mem_singleton_self m
  · rw [Nat.add_zero, hframe, hasking]
    exact hwaits

end Vdht.Net
