import Vdht.Dht.Decode
import Vdht.Lib.Action
import Vdht.Node.Reflex
import Vdht.Route.Closest
import Vdht.Route.SrvcSpace
import Vdht.Route.Tickets

/-!
# The route

`vroute.c`: the queries and responses a node sends, the handlers of the messages it receives
and the operations of its user and its timer. A handler is a program over the state of the
route. Nonces, the answers of the message queue, the clock, random ids and what uninitialised
objects hold are inputs; the inspection callback of the tests and the database are left out.

`log` is not part of the source. It records, in order, what leaves the state: messages that were
pushed, responses that passed their token check, nonces of check tickets that were reaped,
records that a handler of a response or of an announcement passes to one of the two spaces, and
calls of a user.
-/

namespace Vdht.Route

open Vdht.Core Dht Lib Node NodeId

/-- What the route does that can be seen from outside: a message that is pushed, a response that
finds its ticket or a ticket that is dropped, a record that is handed on to a space, and a callback
of a user. -/
inductive RouteEvent where
  | pushed (id : DhtId) (conn : VnodeConn) (nonce : Vnonce) (msg : List UInt8)
  | accepted (nonce : Vnonce)
  | reaped (nonce : Vnonce)
  | nodePassed (leaf : Option BeNode) (nodei : VnodeInfo)
  | srvcPassed (leaf : Option BeNode) (srvci : VsrvcInfo)
  | shown (call : Shown)

/-- `vroute`: the id and the properties of the node, the two spaces and the tickets, with a log of
what was done so far. -/
structure Vroute where
  myid : Token
  props : UInt32
  node_space : NodeSpace
  srvc_space : SrvcSpace
  overdue_tmo : Int
  tickets : List Ticket
  node : Vnode
  /-- the number of message buffers that were allocated -/
  nmsgs : Nat
  log : List RouteEvent

/-- What happens outside: the nonce made for the `k`-th message and whether it can be pushed. -/
structure World where
  nonce : Nat → Vnonce
  push : Nat → Bool

/-- A computation on the route that may fault. -/
abbrev RouteM := EStateM Fault Vroute

variable (w : World)

/-- Events are added to the log of the route. -/
def emit (events : List RouteEvent) : RouteM Unit :=
  modify fun s => { s with log := s.log ++ events }

/-! ## Tickets -/

/-- `_vroute_tckt_space_add_ticket`: tickets that are stamped with the time get to the end of the
space. -/
def addTickets (now : Int) (infos : List TicketInfo) : RouteM Unit :=
  modify fun s => { s with tickets := s.tickets ++ infos.map (⟨now, ·⟩) }

/-- `_vroute_tckt_space_check_ticket`: the tickets that an argument concerns are called and dropped.
The result says whether there was one. -/
def checkTickets (arg : TicketArg) : RouteM Bool := fun s =>
  match checkTicket arg s.tickets s.node_space with
  | .error e => .error e s
  | .ok r =>
    .ok r.found
      { s with
        tickets := r.tickets
        node_space := r.space
        log := s.log ++ r.shown.map RouteEvent.shown }

/-- `DO_CHECK_TOKEN` and what follows it in the handler. -/
def withToken (nonce : Vnonce) (rest : RouteM Int) : RouteM Int := do
  let found ← checkTickets (.check nonce)
  if found then do
    emit [.accepted nonce]
    rest
  else return -1

/-! ## Sending -/

/-- `VDHT_PING` and so on. -/
def dhtIdCode : DhtId → UInt32
  | .ping => 0
  | .pingRsp => 1
  | .findNode => 2
  | .findNodeRsp => 3
  | .findClosestNodes => 4
  | .findClosestNodesRsp => 5
  | .reflex => 6
  | .reflexRsp => 7
  | .probe => 8
  | .probeRsp => 9
  | .postService => 10
  | .findService => 11
  | .findServiceRsp => 12

/-- `route->props & PROP_..` -/
def hasProp (props : UInt32) (id : DhtId) : Bool := props &&& (1 <<< dhtIdCode id) ≠ 0

/-- From `BEGIN_QUERY` to the end of `END_QUERY`: whether the message was pushed. -/
def sendMsg (id : DhtId) (conn : VnodeConn) (nonce : Vnonce)
    (msg : Res (Option (List UInt8))) : RouteM Bool :=
  fun s =>
    match msg with
    | .error e => .error e s
    | .ok none => .ok false { s with nmsgs := s.nmsgs + 1 }
    | .ok (some msg) =>
      if w.push s.nmsgs then
        .ok true { s with nmsgs := s.nmsgs + 1, log := s.log ++ [.pushed id conn nonce msg] }
      else .ok false { s with nmsgs := s.nmsgs + 1 }

/-- A query is encoded with a fresh nonce and pushed. Where the push succeeds, its tickets are
added. -/
def sendQuery (id : DhtId) (conn : VnodeConn)
    (enc : Vnonce → Token → Int → Res (Option (List UInt8))) (tickets : Vnonce → List TicketInfo)
    (now : Int) : RouteM Int := do
  let s ← get
  let nonce := w.nonce s.nmsgs
  let pushed ← sendMsg w id conn nonce (enc nonce s.myid vdhtBufLen)
  if pushed then do
    addTickets now (tickets nonce)
    return 0
  else return -1

/-- A response is encoded with the nonce of its query and pushed. No ticket is left, as nothing
comes back. -/
def sendRsp (id : DhtId) (conn : VnodeConn) (nonce : Vnonce)
    (enc : Vnonce → Token → Int → Res (Option (List UInt8))) : RouteM Int := do
  let s ← get
  let pushed ← sendMsg w id conn nonce (enc nonce s.myid vdhtBufLen)
  return if pushed then 0 else -1

/-- The messages that the configuration can disable. -/
def gated (id : DhtId) (m : RouteM Int) : RouteM Int := do
  let s ← get
  if hasProp s.props id then m else return 0

/-- `ADD_CHECK_TOKEN` -/
def checkToken (nonce : Vnonce) : List TicketInfo := [.check nonce]

/-- `_vroute_dht_ping`, when pings are enabled. -/
def dhtPing (conn : VnodeConn) (now : Int) : RouteM Int :=
  gated .ping (sendQuery w .ping conn encPing checkToken now)

/-- `_vroute_dht_ping_rsp`, which carries the record of the node itself. -/
def dhtPingRsp (conn : VnodeConn) (nonce : Vnonce) (nodei : VnodeInfo) : RouteM Int :=
  gated .pingRsp (sendRsp w .pingRsp conn nonce fun nonce myid => encPingRsp nonce myid nodei)

/-- `_vroute_dht_find_node`, which asks for the node of an id. -/
def dhtFindNode (conn : VnodeConn) (targetId : Token) (now : Int) : RouteM Int :=
  gated .findNode
    (sendQuery w .findNode conn (fun nonce myid => encFindNode nonce myid targetId) checkToken now)

/-- `_vroute_dht_find_node_rsp`, which carries the record of the node that was asked for. -/
def dhtFindNodeRsp (conn : VnodeConn) (nonce : Vnonce) (nodei : VnodeInfo) : RouteM Int :=
  gated .findNodeRsp
    (sendRsp w .findNodeRsp conn nonce fun nonce myid => encFindNodeRsp nonce myid nodei)

/-- `_vroute_dht_find_closest_nodes`, which asks for the nodes that are closest to an id. -/
def dhtFindClosestNodes (conn : VnodeConn) (targetId : Token) (now : Int) : RouteM Int :=
  gated .findClosestNodes
    (sendQuery w .findClosestNodes conn
      (fun nonce myid => encFindClosestNodes nonce myid targetId) checkToken now)

/-- `_vroute_dht_find_closest_nodes_rsp`, which carries the records of the closest nodes. -/
def dhtFindClosestNodesRsp (conn : VnodeConn) (nonce : Vnonce) (closest : List VnodeInfo) :
    RouteM Int :=
  gated .findClosestNodesRsp
    (sendRsp w .findClosestNodesRsp conn nonce
      fun nonce myid => encFindClosestNodesRsp nonce myid closest)

/-- `_vroute_dht_reflex`, which asks for the address under which the node is seen. No property
guards it. -/
def dhtReflex (conn : VnodeConn) (now : Int) : RouteM Int :=
  sendQuery w .reflex conn encReflex checkToken now

/-- `_vroute_dht_reflex_rsp`, which carries the address that a query came from. No property guards
it. -/
def dhtReflexRsp (conn : VnodeConn) (nonce : Vnonce) (reflexiveAddr : VsockaddrIn) : RouteM Int :=
  sendRsp w .reflexRsp conn nonce fun nonce myid => encReflexRsp nonce myid reflexiveAddr

/-- `_vroute_dht_probe`, which leaves a second ticket for the connection it probes. No property
guards it. -/
def dhtProbe (conn : VnodeConn) (targetId : Token) (now : Int) : RouteM Int :=
  sendQuery w .probe conn (fun nonce myid => encProbe nonce myid targetId)
    (fun nonce => checkToken nonce ++ [.conn nonce targetId conn]) now

/-- `_vroute_dht_probe_rsp`. No property guards it. -/
def dhtProbeRsp (conn : VnodeConn) (nonce : Vnonce) : RouteM Int :=
  sendRsp w .probeRsp conn nonce encProbeRsp

/-- No response is expected, and no ticket is added. -/
def dhtPostService (conn : VnodeConn) (srvci : VsrvcInfo) (now : Int) : RouteM Int :=
  gated .postService
    (sendQuery w .postService conn (fun nonce myid => encPostService nonce myid srvci)
      (fun _ => []) now)

/-- `_vroute_dht_find_service`, which asks for the service of a hash. -/
def dhtFindService (conn : VnodeConn) (hash : Token) (now : Int) : RouteM Int :=
  gated .findService
    (sendQuery w .findService conn (fun nonce myid => encFindService nonce myid hash) checkToken
      now)

/-- `_vroute_dht_find_service_rsp`, which carries the record of the service that was asked for. -/
def dhtFindServiceRsp (conn : VnodeConn) (nonce : Vnonce) (srvci : VsrvcInfo) : RouteM Int :=
  gated .findServiceRsp
    (sendRsp w .findServiceRsp conn nonce fun nonce myid => encFindServiceRsp nonce myid srvci)

/-- A message that an iteration over the peers asks for, through the routine that sends it. -/
def dhtCall (now : Int) : DhtCall → RouteM Int
  | .ping conn => dhtPing w conn now
  | .findNode conn target => dhtFindNode w conn target now
  | .findClosestNodes conn target => dhtFindClosestNodes w conn target now
  | .reflex conn => dhtReflex w conn now
  | .probe conn target => dhtProbe w conn target now
  | .postService conn srvci => dhtPostService w conn srvci now
  | .findService conn hash => dhtFindService w conn hash now

/-- The calls an operation of the node space makes; their results are ignored. -/
def dhtCalls (now : Int) : List DhtCall → RouteM Unit
  | [] => pure ()
  | c :: cs => do
    let _ ← dhtCall w now c
    dhtCalls now cs

/-! ## Handlers -/

/-- What a handler works with besides the message: the connection, the time, a random id, and
what its uninitialised objects hold. -/
structure Arrival where
  conn : VnodeConn
  now : Int
  freshId : Token
  nonce : Vnonce
  fromId : Token
  targetId : Token
  addr : Block 20

/-- `kick_node` -/
def kick (fromId : Token) (now : Int) : RouteM Bool := fun s =>
  .ok (kickNode s.node_space fromId now).2
    { s with node_space := (kickNode s.node_space fromId now).1 }

/-- `add_node` -/
def storeNode (nodei : VnodeInfo) (flag : AddFlag) (now : Int) : RouteM Unit := fun s =>
  match addNode s.node_space nodei flag now with
  | .error e => .error e s
  | .ok space => .ok () { s with node_space := space }

/-- `add_service` -/
def storeService (srvci : VsrvcInfo) (now : Int) : RouteM Unit := fun s =>
  match addService s.srvc_space srvci now with
  | .error e => .error e s
  | .ok space => .ok () { s with srvc_space := space }

/-- A record of a message goes into the space of peers, and the log says which. -/
def passNode (leaf : Option BeNode) (nodei : VnodeInfo) (flag : AddFlag) (now : Int) :
    RouteM Unit := do
  emit [.nodePassed leaf nodei]
  storeNode nodei flag now

/-- The records of a message go into the space of peers one after the other. -/
def passNodes (flag : AddFlag) (now : Int) : List (Option BeNode × VnodeInfo) → RouteM Unit
  | [] => pure ()
  | (leaf, nodei) :: rest => do
    passNode leaf nodei flag now
    passNodes flag now rest

/-- A record of a message goes into the space of services, and the log says which. -/
def passService (leaf : Option BeNode) (srvci : VsrvcInfo) (now : Int) : RouteM Unit := do
  emit [.srvcPassed leaf srvci]
  storeService srvci now

/-- The argument of a message under a key. -/
def argNode (ctxt : BeNode) (key : String) : Option BeNode :=
  (beFindNode ctxt (cstr "a")).bind fun a => beFindNode a (cstr key)

/-- The items of a list argument. -/
def argItems (ctxt : BeNode) (key : String) : List BeNode :=
  match argNode ctxt key with
  | some (.list l) => l
  | _ => []

/-- A node with a made up id and an unknown version. -/
def fakeNode (id : Token) (addr : SockaddrIn) : Res VnodeInfo :=
  match vnodeInfoRelaxInit vnodeInfoRelax id vnodeVerUnknown 0 with
  | .error e => .error e
  | .ok nodei =>
    match vnodeInfoAddAddr nodei addr VSOCKADDR_UNKNOWN with
    | .error e => .error e
    | .ok (nodei, _) => .ok nodei

/-- The sender of a ping that is not known yet joins as a fake node. -/
def welcome (known : Bool) (freshId : Token) (addr : SockaddrIn) (now : Int) : RouteM Unit :=
  if known then pure ()
  else do
    let nodei ← lift (fakeNode freshId addr)
    storeNode nodei .byOther now

/-- `_vroute_cb_ping`: the sender has been heard of, and is added with the address it sent from
where it is no peer yet. The response carries the record of the node. -/
def cbPing (m : Arrival) (ctxt : BeNode) : RouteM Int := do
  let (nonce, fromId) ← lift (decPing ctxt m.nonce m.fromId)
  let known ← kick fromId m.now
  welcome known m.freshId m.conn.raddr m.now
  let s ← get
  dhtPingRsp w m.conn nonce s.node.nodei

/-- `_vroute_cb_ping_rsp`: the record of the sender goes into the space of peers as that of a node
that answers. -/
def cbPingRsp (m : Arrival) (ctxt : BeNode) : RouteM Int := do
  let (nonce, result) ← lift (decPingRsp ctxt m.nonce nodeRelaxBlock)
  withToken nonce do
    passNode (argNode ctxt "node") (vnodeInfoOfBytes result.data) .byPingRsp m.now
    return 0

/-- `_vroute_cb_find_node`: the sender has been heard of, and is told the record of the peer that it
asked for, if that is one. -/
def cbFindNode (m : Arrival) (ctxt : BeNode) : RouteM Int := do
  let (nonce, fromId, targetId) ← lift (decFindNode ctxt m.nonce m.fromId m.targetId)
  let _ ← kick fromId m.now
  let s ← get
  let found ← lift (findNode s.node_space targetId vnodeInfoRelax)
  match found with
  | none => return 0
  | some nodei => dhtFindNodeRsp w m.conn nonce nodei

/-- `_vroute_cb_find_node_rsp`: the sender has been heard of, and the record it tells goes into the
space of peers. -/
def cbFindNodeRsp (m : Arrival) (ctxt : BeNode) : RouteM Int := do
  let (nonce, fromId, result) ← lift (decFindNodeRsp ctxt m.nonce m.fromId nodeRelaxBlock)
  withToken nonce do
    let _ ← kick fromId m.now
    passNode (argNode ctxt "node") (vnodeInfoOfBytes result.data) .byOther m.now
    return 0

/-- `MAX_CAPC`: the most records that a response of the closest nodes carries. -/
def MAX_CAPC : Int := 8

/-- `_vroute_cb_find_closest_nodes`: the sender has been heard of, and is told up to eight peers
that are closest to its target, if there are any. -/
def cbFindClosestNodes (m : Arrival) (ctxt : BeNode) : RouteM Int := do
  let (nonce, fromId, targetId) ← lift (decFindClosestNodes ctxt m.nonce m.fromId m.targetId)
  let _ ← kick fromId m.now
  let s ← get
  let closest ← lift (findClosestNodes s.node_space targetId MAX_CAPC)
  match closest with
  | [] => return 0
  | _ => dhtFindClosestNodesRsp w m.conn nonce closest

/-- `_vroute_cb_find_closest_nodes_rsp`: the sender has been heard of, and the records it tells go
into the space of peers. -/
def cbFindClosestNodesRsp (m : Arrival) (ctxt : BeNode) : RouteM Int := do
  let (nonce, fromId, closest) ← lift (decFindClosestNodesRsp ctxt m.nonce m.fromId [])
  withToken nonce do
    let _ ← kick fromId m.now
    passNodes .byOther m.now
      (((argItems ctxt "nodes").map some).zip (closest.map fun b => vnodeInfoOfBytes b.data))
    return 0

/-- `_vroute_cb_reflex`: the sender is told the address that its message came from, with the type
that its range suggests. -/
def cbReflex (m : Arrival) (ctxt : BeNode) : RouteM Int := do
  let (nonce, fromId) ← lift (decReflex ctxt m.nonce m.fromId)
  let _ ← kick fromId m.now
  let type := if vsockaddrIsPrivate m.conn.raddr then VSOCKADDR_UPNP else VSOCKADDR_REFLEXIVE
  dhtReflexRsp w m.conn nonce ⟨m.conn.raddr, type⟩

/-- `node->ops->reflex_addr` -/
def reflexNode (laddr : SockaddrIn) (eaddr : VsockaddrIn) : RouteM Unit := fun s =>
  match vnodeReflexAddr s.node laddr eaddr with
  | .error e => .error e s
  | .ok node => .ok () { s with node := node }

/-- `_vroute_cb_reflex_rsp`: the address that a peer saw becomes one of the node itself. -/
def cbReflexRsp (m : Arrival) (ctxt : BeNode) : RouteM Int := do
  let (nonce, fromId, addr) ← lift (decReflexRsp ctxt m.nonce m.fromId m.addr)
  withToken nonce do
    let _ ← kick fromId m.now
    reflexNode m.conn.laddr (vsockaddrOfBytes addr.data)
    return 0

/-- `_vroute_cb_probe`: a probe that is for this node is answered; any other one is left. -/
def cbProbe (m : Arrival) (ctxt : BeNode) : RouteM Int := do
  let (nonce, fromId, targetId) ← lift (decProbe ctxt m.nonce m.fromId m.targetId)
  let s ← get
  if vtokenEqual targetId s.myid then do
    let _ ← kick fromId m.now
    dhtProbeRsp w m.conn nonce
  else return -1

/-- `_vroute_cb_probe_rsp`: the connection that was probed works, which its second ticket is told.
-/
def cbProbeRsp (m : Arrival) (ctxt : BeNode) : RouteM Int := do
  let (nonce, fromId) ← lift (decProbeRsp ctxt m.nonce m.fromId)
  withToken nonce do
    let _ ← kick fromId m.now
    let _ ← checkTickets (.conn nonce)
    return 0

/-- `_vroute_cb_post_service`: the record of a service that somebody announced goes into the space
of services. -/
def cbPostService (m : Arrival) (ctxt : BeNode) : RouteM Int := do
  let (_, fromId, srvci) ← lift (decPostService ctxt m.nonce m.fromId srvcRelaxBlock)
  let _ ← kick fromId m.now
  passService (argNode ctxt "service") (vsrvcInfoOfBytes srvci.data) m.now
  return 0

/-- `_vroute_cb_find_service`: the sender is told the best service of the hash, if one is known
here. -/
def cbFindService (m : Arrival) (ctxt : BeNode) : RouteM Int := do
  let (nonce, fromId, hash) ← lift (decFindService ctxt m.nonce m.fromId m.targetId)
  let _ ← kick fromId m.now
  let s ← get
  let (srvci, found) ← lift (getService s.srvc_space hash vsrvcInfoRelax)
  if found then dhtFindServiceRsp w m.conn nonce srvci else return 0

/-- `_vroute_cb_find_service_rsp`: the service goes into the space, its host is looked for where it
is no peer, and the users who wait for the hash are shown it. -/
def cbFindServiceRsp (m : Arrival) (ctxt : BeNode) : RouteM Int := do
  let (nonce, fromId, result) ← lift (decFindServiceRsp ctxt m.nonce m.fromId srvcRelaxBlock)
  let srvci := vsrvcInfoOfBytes result.data
  withToken nonce do
    let _ ← kick fromId m.now
    passService (argNode ctxt "service") srvci m.now
    let s ← get
    dhtCalls w m.now (probeNode s.node_space srvci.hostid)
    let _ ← checkTickets (.srvc srvci)
    return 0

/-- `route_cb_ops` -/
def routeCbOps (m : Arrival) (ctxt : BeNode) : DhtId → RouteM Int
  | .ping => cbPing w m ctxt
  | .pingRsp => cbPingRsp m ctxt
  | .findNode => cbFindNode w m ctxt
  | .findNodeRsp => cbFindNodeRsp m ctxt
  | .findClosestNodes => cbFindClosestNodes w m ctxt
  | .findClosestNodesRsp => cbFindClosestNodesRsp m ctxt
  | .reflex => cbReflex w m ctxt
  | .reflexRsp => cbReflexRsp m ctxt
  | .probe => cbProbe w m ctxt
  | .probeRsp => cbProbeRsp m ctxt
  | .postService => cbPostService m ctxt
  | .findService => cbFindService w m ctxt
  | .findServiceRsp => cbFindServiceRsp w m ctxt

/-- `_aux_route_msg_cb` for a message of `len` bytes at the front of the object `buf`. -/
def routeMsgCb (m : Arrival) (buf : List UInt8) (len : Int) : RouteM Int := do
  let opened ← lift (decBegin buf len)
  match opened with
  | none => return -1
  | some (id, ctxt) => routeCbOps w m ctxt id

/-! ## Operations of the user and the timer -/

/-- `_vroute_join_node`: an address is added as that of a node whose id is not known yet. -/
def vrouteJoinNode (freshId : Token) (addr : SockaddrIn) (now : Int) : RouteM Int := do
  let nodei ← lift (fakeNode freshId addr)
  storeNode nodei .byOther now
  return 0

/-- `_vroute_find_service`: the user is shown the best service of the hash that is known here, and
else a service without addresses. -/
def vrouteFindService (hash : Token) (cookie : Nat) : RouteM Int := do
  let s ← get
  let (srvci, found) ← lift (getService s.srvc_space hash vsrvcInfoRelax)
  if found then do
    let addrs ← lift (showAddrs srvci.toAddrBlock)
    emit [.shown ⟨cookie, srvci.hash, srvci.naddrs, srvci.proto.toInt, addrs⟩]
    return 0
  else do
    emit [.shown ⟨cookie, hash, 0, VPROTO_UNKNOWN, []⟩]
    return 0

/-- `_vroute_probe_service`: the peers are asked for the service, and a ticket remembers the user
until one of them answers. -/
def vrouteProbeService (hash : Token) (cookie : Nat) (now : Int) : RouteM Int := do
  let s ← get
  dhtCalls w now (probeService s.node_space hash)
  addTickets now [.srvc hash cookie]
  return 0

/-- `_vroute_air_service`: the service is posted to the good peers. -/
def vrouteAirService (srvci : VsrvcInfo) (now : Int) : RouteM Int := do
  let s ← get
  dhtCalls w now (airService s.node_space srvci)
  return 0

/-- `_vroute_reflex_addr`: peers are asked under which address they see a local one. -/
def vrouteReflexAddr (addr : SockaddrIn) (now : Int) : RouteM Int := do
  let s ← get
  dhtCalls w now (reflexAddr s.node_space addr)
  return 0

/-- Replace the node space and make the calls that go with it. -/
def onNodeSpace (now : Int) (f : NodeSpace → Res (NodeSpace × List DhtCall)) : RouteM Unit := do
  let s ← get
  let (space, calls) ← lift (f s.node_space)
  modify fun s => { s with node_space := space }
  dhtCalls w now calls

/-- `_vroute_probe_connectivity`: the addresses of the peers are probed from a local one. -/
def vrouteProbeConnectivity (laddr : VsockaddrIn) (now : Int) : RouteM Int := do
  onNodeSpace w now fun space => probeConnectivity space laddr
  return 0

/-- `timed_reap` -/
def reapTickets (now : Int) : RouteM Unit :=
  modify fun s =>
    let gone := s.tickets.filter (isOverdue s.overdue_tmo now)
    { s with
      tickets := (timedReap s.overdue_tmo now s.tickets).1
      log := s.log ++ (timedReap s.overdue_tmo now s.tickets).2.map RouteEvent.shown ++
        (outstanding gone).map RouteEvent.reaped }

/-- `_vroute_tick`: the peers are pinged and refreshed that are due, then the tickets are dropped
that are overdue. -/
def vrouteTick (rand : Fin NBUCKETS → Nat) (now : Int) : RouteM Int := do
  onNodeSpace w now fun space => nodeSpaceTick space rand now
  reapTickets now
  return 0

/-- `_vroute_clear`: both spaces are emptied and all tickets dropped without a callback. -/
def vrouteClear : RouteM Unit :=
  modify fun s =>
    { s with
      node_space := nodeSpaceClear s.node_space
      srvc_space := srvcSpaceClear s.srvc_space
      tickets := []
      log := s.log ++ (outstanding s.tickets).map RouteEvent.reaped }

/-- `vroute_init`; the capabilities come from the configuration. -/
def vrouteInit (myid : Token) (props : UInt32) (nodeSpace : NodeSpace) (bucketSz : Nat)
    (node : Vnode) : Vroute where
  myid := myid
  props := props
  node_space := nodeSpace
  srvc_space := srvcSpaceInit bucketSz
  overdue_tmo := 3
  tickets := []
  node := node
  nmsgs := 0
  log := []

/-- What the node asks of its route, or what reaches it from the network: a datagram, a tick of the
timer and the calls of a user. -/
inductive RouteOp where
  | recv (m : Arrival) (buf : List UInt8) (len : Int)
  | tick (rand : Fin NBUCKETS → Nat) (now : Int)
  | joinNode (freshId : Token) (addr : SockaddrIn) (now : Int)
  | findService (hash : Token) (cookie : Nat)
  | probeService (hash : Token) (cookie : Nat) (now : Int)
  | airService (srvci : VsrvcInfo) (now : Int)
  | reflexAddr (addr : SockaddrIn) (now : Int)
  | probeConnectivity (laddr : VsockaddrIn) (now : Int)
  | clear

/-- The routine behind each operation of the route. -/
def routeOp : RouteOp → RouteM Int
  | .recv m buf len => routeMsgCb w m buf len
  | .tick rand now => vrouteTick w rand now
  | .joinNode freshId addr now => vrouteJoinNode freshId addr now
  | .findService hash cookie => vrouteFindService hash cookie
  | .probeService hash cookie now => vrouteProbeService w hash cookie now
  | .airService srvci now => vrouteAirService w srvci now
  | .reflexAddr addr now => vrouteReflexAddr w addr now
  | .probeConnectivity laddr now => vrouteProbeConnectivity w laddr now
  | .clear => do
    vrouteClear
    return 0

/-- One operation in a run; its return value does not matter to the next. -/
def routeExec (s : Vroute) (op : RouteOp) : Res Vroute :=
  match routeOp w op s with
  | .ok _ s' => .ok s'
  | .error e _ => .error e

end Vdht.Route
