import Vdht.Net.Faultless
import Vdht.Route.Answers

/-!
# Queries that are answered

A query that reaches a node, be it late, again or at the wrong node, makes it send one message or
none. That message is the response to this query, goes to where the query came from and says what
the tables of the node hold.
-/

namespace Vdht.Net

open Vdht.Core Dht Lib NodeId Route Rpc

/-! ## Deliveries -/

section Deliveries

variable {v : World} {s : Vroute} {m : Sent} {x : Delivery}

/-- A host that gets a message runs the handler for its kind. -/
theorem hostRcv_handles {ctxt : BeNode} (hlabel : Labelled m.msg m.id m.nonce ctxt) :
    hostRcv v x ((auxVhostPackMsgCb VMSG_DHT m.msg).getD []) s =
      endState (routeCbOps v x.arrival ctxt m.id s) := by
  obtain ⟨rest, hrcv⟩ := hostRcv_packed v x s (if_pos rfl) hlabel.opens.pos hlabel.length_le
  refine hrcv.trans (congrArg endState ?_)
  unfold routeMsgCb
  rw [hlabel.opens.opened rest, bind_ok_apply (lift_ok _ s)]

/-- The tree of a message has what was put in. -/
theorem readFrom_sayable {K : AddrKey → Prop} {d : DhtMsg} (hd : Sayable K d) {out : List UInt8}
    (hout : d.encode = .ok (some out)) {ctxt : BeNode} (hopen : OpensAs out d.id ctxt) :
    d.ReadFrom ctxt := by
  cases d with
  | ping nonce srcId =>
    exact (delivers_src (named_query .ping "ping" (by decide))).opened hout hopen
  | pingRsp nonce srcId n => exact (delivers_pingRsp hd.1).opened hout hopen
  | findNode nonce srcId targetId =>
    exact (delivers_target (named_query .findNode "find_node" (by decide)) targetId).opened hout hopen
  | findNodeRsp nonce srcId n =>
    exact (delivers_node (named_rsp .findNodeRsp "find_node" (by decide)) hd.1).opened hout hopen
  | findClosestNodes nonce srcId targetId =>
    exact (delivers_target (named_query .findClosestNodes "find_closest_nodes" (by decide))
      targetId).opened hout hopen
  | findClosestNodesRsp nonce srcId ns =>
    exact (delivers_closest hd.1 fun n hn => (hd.2 n hn).1).opened hout hopen
  | reflex nonce srcId =>
    exact (delivers_src (named_query .reflex "reflex" (by decide))).opened hout hopen
  | reflexRsp nonce srcId a => exact (delivers_reflexRsp nonce srcId a).opened hout hopen
  | probe nonce srcId destId =>
    exact (delivers_target (named_query .probe "probe" (by decide)) destId).opened hout hopen
  | probeRsp nonce srcId =>
    exact (delivers_src (named_rsp .probeRsp "probe" (by decide))).opened hout hopen
  | postService nonce srcId srvci =>
    exact (delivers_service (named_query .postService "post_service" (by decide))
      hd.sendable).opened hout hopen
  | findService nonce srcId hash =>
    exact (delivers_target (named_query .findService "find_service" (by decide)) hash).opened hout
      hopen
  | findServiceRsp nonce srcId srvci =>
    exact (delivers_service (named_rsp .findServiceRsp "find_service" (by decide))
      hd.sendable).opened hout hopen

/-- The messages that the node has pushed, in their order; a delivery names one of them by its
number. -/
def sentOf (s : Vroute) : List Sent := s.log.filterMap sentMsg

/-- What a node sends in return for the query `q`: one answer if it has what it is asked for and the
answer can leave, and nothing otherwise. -/
structure Answered (K : AddrKey → Prop) (v : World) (x : Delivery) (q : DhtMsg) (rsp : DhtId)
    (s s' : Vroute) : Prop where
  answer : Has s x.m.now q → goesOut v s rsp = true →
    ∃ d out, AnswerTo s x.arrival q d ∧ Uttered K d rsp q.nonce out ∧
      sentOf s' = sentOf s ++ [⟨rsp, x.arrival.conn, q.nonce, out⟩]
  silence : ¬ (Has s x.m.now q ∧ goesOut v s rsp = true) → sentOf s' = sentOf s

theorem sentOf_ends {p : RouteM Int} {events : List RouteEvent} (h : Ends p s events) :
    sentOf (endState (p s)) = sentOf s ++ events.filterMap sentMsg := by
  obtain ⟨r, s', hok, hlog⟩ := h
  rw [hok]
  show s'.log.filterMap sentMsg = _
  rw [hlog, List.filterMap_append]
  rfl

variable {K : AddrKey → Prop}

/-- What reaches a host is handled with the tree of the message, from which everything that was put
in can be read. -/
theorem uttered_handled {d : DhtMsg} (hd : Uttered K d m.id m.nonce m.msg) (v : World) (x : Delivery)
    (s : Vroute) :
    ∃ ctxt, d.ReadFrom ctxt ∧ hostRcv v x ((auxVhostPackMsgCb VMSG_DHT m.msg).getD []) s =
      endState (routeCbOps v x.arrival ctxt d.id s) := by
  obtain ⟨ctxt, hlabel, -⟩ := hd.told
  refine ⟨ctxt, readFrom_sayable hd.sayable hd.written (hd.id_eq ▸ hlabel.opens), ?_⟩
  rw [hd.id_eq]
  exact hostRcv_handles hlabel

theorem healthy_answered (hs : Healthy K s) (hx : K x.addr.key) {q : DhtMsg}
    (hq : Uttered K q m.id m.nonce m.msg) {rsp : DhtId} (hrsp : rspOf m.id = some rsp) :
    Answered K v x q rsp s (hostRcv v x ((auxVhostPackMsgCb VMSG_DHT m.msg).getD []) s) := by
  obtain ⟨ctxt, hread, hstep⟩ := uttered_handled hq v x s
  rw [hstep]
  rw [← hq.id_eq] at hrsp
  obtain ⟨hhas, hlacks⟩ := query_answered v hs (m := x.arrival) hx (by rw [hrsp]; rfl) hread
  refine ⟨fun h hout => ?_, fun hno => ?_⟩
  · obtain ⟨d, hanswer, hsay, out, henc, hends⟩ := hhas h
    obtain ⟨hkind, hnonce⟩ := hanswer.labels
    obtain rfl : rsp = d.id := Option.some.inj (hrsp.symm.trans hkind)
    rw [if_pos hout] at hends
    refine ⟨d, out, hanswer, ⟨hsay, henc, rfl, hnonce⟩, ?_⟩
    rw [sentOf_ends hends, ← hnonce]
    rfl
  · by_cases h : Has s x.m.now q
    · obtain ⟨d, hanswer, -, out, henc, hends⟩ := hhas h
      obtain rfl : rsp = d.id := Option.some.inj (hrsp.symm.trans hanswer.labels.1)
      rw [if_neg fun hout => hno ⟨h, hout⟩] at hends
      rw [sentOf_ends hends]
      exact List.append_nil _
    · rw [sentOf_ends (hlacks h)]
      exact List.append_nil _

end Deliveries

/-! ## Runs -/

section Runs

variable {ι : Type} {w : ι → World} [DecidableEq ι] {net : ι → Vroute}
  {ops : List (NetOp ι RouteOp Delivery)}

theorem netRun_append (ops ops' : List (NetOp ι RouteOp Delivery)) :
    netRun (nodes w) net (ops ++ ops') = netRun (nodes w) (netRun (nodes w) net ops) ops' :=
  List.foldl_append

theorem netStep_deliver {i j : ι} {k : Nat} {m : Sent} {x : Delivery}
    (hm : (sentOf (net i))[k]? = some m) :
    netStep (nodes w) net (.deliver i k j x) =
      Function.update net j (hostRcv (w j) x ((auxVhostPackMsgCb VMSG_DHT m.msg).getD []) (net j)) := by
  have hstep : stepOf (nodes w) net (.deliver i k j x) = some (j, .recv x m) := by
    show ((sentOf (net i))[k]?).map _ = _
    rw [hm]
    rfl
  rw [netStep_some hstep]
  rfl

/-- A step of the channel: the host that is reached answers. -/
theorem deliver_answered {K : AddrKey → Prop} {i j : ι} (h : Healthy K (net j)) {k : Nat} {m : Sent}
    {q : DhtMsg} (hq : Uttered K q m.id m.nonce m.msg) (hm : (sentOf (net i))[k]? = some m)
    {r : DhtId} (hrsp : rspOf m.id = some r) {x : Delivery} (hx : K x.addr.key) :
    Answered K (w j) x q r (net j) (netStep (nodes w) net (.deliver i k j x) j) := by
  rw [netStep_deliver hm, Function.update_self]
  exact healthy_answered h hx hq hrsp

theorem netRun_snoc (net : ι → Vroute) (ops : List (NetOp ι RouteOp Delivery))
    (o : NetOp ι RouteOp Delivery) :
    netRun (nodes w) net (ops ++ [o]) = netStep (nodes w) (netRun (nodes w) net ops) o :=
  netRun_append ops [o]

/-- In every run of nodes that start sound, with an address of their own, whose users announce records
as a node registers them, whatever the channel does: when a query that some node has sent is delivered
to a node, that node sends at most one message. It is the response of the right kind with the nonce of
the query, goes back to where the query came from, and answers with what the node has; and it is sent
exactly if the node has what it is asked for, its queue has room and the kind of the response is
enabled. The arrays behind the tables and behind a search are taken as lists. -/
theorem queries_answered (w : ι → World) {net : ι → Vroute} (hready : ∀ i, Ready (net i))
    {ops : List (NetOp ι RouteOp Delivery)} (hops : AllSound ops) {i : ι} {k : Nat} {m : Sent}
    (hm : (sentOf (netRun (nodes w) net ops i))[k]? = some m) {r : DhtId}
    (hrsp : rspOf m.id = some r) (j : ι) (x : Delivery) :
    ∃ q : DhtMsg, Uttered (fun _ => True) q m.id m.nonce m.msg ∧
      Answered (fun _ => True) (w j) x q r (netRun (nodes w) net ops j)
        (netRun (nodes w) net (ops ++ [.deliver i k j x]) j) := by
  have hhealthy := netRun_anywhere (w := w) hready hops
  obtain ⟨q, hq⟩ := (hhealthy i).sent _ _ _ _ (mem_sent (List.mem_of_getElem? hm))
  rw [netRun_snoc]
  exact ⟨q, hq, deliver_answered (hhealthy j) hq hm hrsp trivial⟩

end Runs

/-- The ping of node 0, after it has joined node 1. -/
def joinOps : List (NetOp Bool RouteOp Delivery) :=
  [.act false (.joinNode (Block.ofList VTOKEN_LEN [9]) zeroAddr.addr 1),
    .act false (.tick (fun _ => 0) 5)]

theorem joinOps_sent :
    (sentOf (netRun (nodes pairWorld) readyNode joinOps false)).map (·.id) = [.ping] := by
  decide +kernel

theorem allSound_joinOps : AllSound joinOps := by
  intro i op hmem
  have hfront : findOps = joinOps ++ findOps.drop 2 := rfl
  refine allSound_findOps i op ?_
  rw [hfront]
  exact List.mem_append_left _ hmem

/-- Node 1 answers the ping. -/
theorem queries_answered_ping :
    ∃ q : DhtMsg, q.id = .ping ∧ Answered (fun _ => True) (pairWorld true) plainDelivery q .pingRsp
      (netRun (nodes pairWorld) readyNode joinOps true)
      (netRun (nodes pairWorld) readyNode (joinOps ++ [.deliver false 0 true plainDelivery])
        true) := by
  have hids := joinOps_sent
  cases hsent : sentOf (netRun (nodes pairWorld) readyNode joinOps false) with
  | nil =>
    rw [hsent] at hids
    cases hids
  | cons m rest =>
    rw [hsent] at hids
    have hid : m.id = .ping := (List.cons.inj hids).1
    obtain ⟨q, hq, hanswered⟩ := queries_answered pairWorld ready_readyNode allSound_joinOps
      (i := false) (k := 0) (m := m) (by rw [hsent]; rfl) (r := .pingRsp) (by rw [hid]; rfl) true
      plainDelivery
    exact ⟨q, hq.id_eq.trans hid, hanswered⟩

end Vdht.Net
