import Vdht.NodeId.NodeInfo
import Vdht.NodeId.SrvcInfo
import Vdht.Lib.Buckets
import Vdht.Lib.CInt

/-!
# The node routing space

`vroute_node.c`: the table of neighbor nodes, one bucket for each bit of the distance to the
local id. The peers of a bucket are a list, the operations of `varray` being list operations.
Calls into the route (`route->dht_ops`) do not touch the node space; an operation returns the
calls it makes, in order. The clock and the random number of `varray_get_rand` are inputs.
The database of the space is left out.
-/

namespace Vdht.Route

open NodeId Lib

/-- `vnodeConn`: a pair of addresses between which messages are sent, with the priority by which it
replaces another one. -/
structure VnodeConn where
  priority : Int
  laddr : SockaddrIn
  raddr : SockaddrIn
deriving DecidableEq

/-- `vnodeConn_set`: the priority of a connection is the sum of the types of its two ends. -/
def vnodeConnSet (laddr raddr : VsockaddrIn) : VnodeConn where
  priority := (vsockaddrType laddr.type).toNat + (vsockaddrType raddr.type).toNat
  laddr := laddr.addr
  raddr := raddr.addr

/-- `vnodeConn_set_raw`: a connection between two addresses whose types are not known, which has the
highest number for its priority. -/
def vnodeConnSetRaw (laddr raddr : SockaddrIn) : VnodeConn where
  priority := VSOCKADDR_UNKNOWN.toNat + VSOCKADDR_UNKNOWN.toNat
  laddr := laddr
  raddr := raddr

/-- `vnodeConn_adjust`: the new connection replaces the old one unless its priority is the greater
number. -/
def vnodeConnAdjust (old neo : VnodeConn) : VnodeConn :=
  if neo.priority > old.priority then old else neo

/-- `vpeer`: the record of a node, the connection to it, when it was last heard of, how long to wait
before it is pinged again, and how often it was pinged and probed without an answer. -/
structure Vpeer where
  conn : VnodeConn
  nodei : VnodeInfo
  tick_ts : Int
  next_tmo : Int
  ntry_pings : Int
  ntry_probes : Int

/-- The two ways in which a node gets to be added: it is told by another node, or it has answered a
ping. -/
inductive AddFlag where
  | byOther
  | byPingRsp
deriving DecidableEq

/-- A bucket of the space of peers, with the time at which it was last refreshed. -/
structure Bucket where
  peers : List Vpeer
  ts : Int

/-- `vroute_node_space`: the buckets of peers by their distance from the id of the own node, with
the bounds of a bucket and of the waiting times. -/
structure NodeSpace where
  myid : Token
  myver : Token
  zaddr : SockaddrIn
  bucket_sz : Nat
  init_next_tmo : Int
  max_next_tmo : Int
  max_next_tmo_unreachable : Int
  next_tmo_step : Int
  max_probe_tms : Int
  max_ping_tms : Int
  bucket : Fin NBUCKETS → Bucket

/-- A call through `route->dht_ops`. -/
inductive DhtCall where
  | ping (conn : VnodeConn)
  | findNode (conn : VnodeConn) (target : Token)
  | findClosestNodes (conn : VnodeConn) (target : Token)
  | reflex (conn : VnodeConn)
  | probe (conn : VnodeConn) (target : Token)
  | postService (conn : VnodeConn) (srvci : VsrvcInfo)
  | findService (conn : VnodeConn) (hash : Token)

/-- `vminimum`: the lesser of two numbers. -/
def vminimum (x y : Int) : Int := if x ≥ y then y else x

/-- `vroute_node_space_init`, with what it reads from the configuration; the getter of the
bucket size never returns a negative number. -/
def nodeSpaceInit (zaddr : SockaddrIn) (bucketSz : Nat) (maxNextTmo : Int) (myid myver : Token) :
    NodeSpace where
  myid := myid
  myver := myver
  zaddr := zaddr
  bucket_sz := bucketSz
  init_next_tmo := 2
  max_next_tmo := maxNextTmo
  max_next_tmo_unreachable := castInt (maxNextTmo * 4)
  next_tmo_step := 5
  max_probe_tms := 3
  max_ping_tms := 3
  bucket := fun _ => ⟨[], 0⟩

/-- The space with one of its buckets replaced. -/
def NodeSpace.setBucket (space : NodeSpace) (idx : Fin NBUCKETS) (b : Bucket) : NodeSpace :=
  { space with bucket := Function.update space.bucket idx b }

/-! ## Peers -/

/-- The cleared record of `vpeer_alloc`. -/
def vpeerAllocNodei : VnodeInfo where
  naddrs := 0
  capc := 0
  addrs := List.replicate VNODEINFO_MIN_ADDRS zeroAddr
  id := Block.zero VTOKEN_LEN
  ver := Block.zero VTOKEN_LEN
  weight := 0

/-- `vpeer_init`: a fresh peer for a record, whose connection goes from the zero address to the
worst one of the record. It has been heard of now and not been pinged yet. -/
def vpeerInit (space : NodeSpace) (nodei : VnodeInfo) (now : Int) : Res Vpeer :=
  match vnodeInfoCopy vpeerAllocNodei nodei with
  | .error e => .error e
  | .ok (d, _) =>
    match vnodeInfoWorstAddr d with
    | .error e => .error e
    | .ok worst =>
      .ok {
        conn := vnodeConnSetRaw space.zaddr worst
        nodei := d
        tick_ts := now
        next_tmo := space.init_next_tmo
        ntry_pings := 0
        ntry_probes := 0 }

/-- The timing part of `vpeer_update`. -/
def vpeerTouch (space : NodeSpace) (peer : Vpeer) (flag : AddFlag) (now : Int) : Vpeer :=
  match flag with
  | .byPingRsp =>
    { peer with
      next_tmo :=
        if peer.ntry_pings > 2 then space.init_next_tmo
        else vminimum (castInt (peer.next_tmo + space.next_tmo_step)) space.max_next_tmo
      ntry_pings := 0
      tick_ts := now }
  | .byOther => peer

/-- `vpeer_update`: a record is merged into that of a peer. Where the merge changes something, the
connection starts anew; a record with another id changes nothing and `0` comes back. -/
def vpeerUpdate (space : NodeSpace) (peer : Vpeer) (nodei : VnodeInfo) (flag : AddFlag)
    (now : Int) : Res (Vpeer × Int) :=
  let peer := vpeerTouch space peer flag now
  match vnodeInfoMerge peer.nodei nodei with
  | .error e => .error e
  | .ok (d, ret) =>
    if ret > 0 then
      match vnodeInfoWorstAddr d with
      | .error e => .error e
      | .ok worst =>
        .ok ({ peer with
          nodei := d
          conn := vnodeConnSetRaw space.zaddr worst
          ntry_probes := 0 }, ret)
    else .ok ({ peer with nodei := d }, ret)

/-! ## Adding a node -/

/-- `_aux_space_find_worst_nodei_cb` over the peers from position `i` on: whether the id was
found, and the position of the peer it wants. -/
def findWorst (id : Token) : List Vpeer → Nat → Int → Int → Option Nat → Bool × Option Nat
  | [], _, _, _, want => (false, want)
  | p :: ps, i, minWgt, maxTry, want =>
    if vtokenEqual p.nodei.id id then (true, some i)
    else if maxTry < p.ntry_pings then findWorst id ps (i + 1) minWgt p.ntry_pings (some i)
    else if minWgt > p.nodei.weight.toInt then
      findWorst id ps (i + 1) p.nodei.weight.toInt maxTry (some i)
    else findWorst id ps (i + 1) minWgt maxTry want

/-- Update the peer at position `i` of bucket `idx`. -/
def updatePeer (space : NodeSpace) (idx : Fin NBUCKETS) (i : Nat) (nodei : VnodeInfo)
    (flag : AddFlag) (now : Int) : Res NodeSpace :=
  match getSlot (space.bucket idx).peers i with
  | .error e => .error e
  | .ok peer =>
    match vpeerUpdate space peer nodei flag now with
    | .error e => .error e
    | .ok (peer, ret) =>
      .ok (space.setBucket idx
        ⟨(space.bucket idx).peers.set i peer, if ret > 0 then now else (space.bucket idx).ts⟩)

/-- A bucket gets one more peer, and counts as refreshed now. -/
def appendPeer (space : NodeSpace) (idx : Fin NBUCKETS) (nodei : VnodeInfo) (now : Int) :
    Res NodeSpace :=
  match vpeerInit space nodei now with
  | .error e => .error e
  | .ok peer => .ok (space.setBucket idx ⟨(space.bucket idx).peers ++ [peer], now⟩)

/-- A node that runs the same version weighs one more. -/
def bumpWeight (space : NodeSpace) (nodei : VnodeInfo) : VnodeInfo :=
  if vtokenEqual space.myver nodei.ver then { nodei with weight := nodei.weight + 1 } else nodei

/-- `_vroute_node_space_add_node`: a record other than that of the own node gets into its bucket. A
peer with its id is updated; else it is appended while the bucket has room; else the worst peer is
updated where that one is bad enough. -/
def addNode (space : NodeSpace) (nodei : VnodeInfo) (flag : AddFlag) (now : Int) :
    Res NodeSpace :=
  if vtokenEqual space.myid nodei.id then .ok space
  else
    let nodei := bumpWeight space nodei
    let idx := vnodeIdBucket space.myid nodei.id
    let peers := (space.bucket idx).peers
    match findWorst nodei.id peers 0 nodei.weight.toInt 3 none with
    | (true, some i) => updatePeer space idx i nodei flag now
    | (_, want) =>
      if want.isSome ∧ peers.length ≥ space.bucket_sz then
        updatePeer space idx (want.getD 0) nodei flag now
      else if peers.length < space.bucket_sz then appendPeer space idx nodei now
      else .ok space

/-! ## The other operations -/

/-- Change the first peer with the id. -/
def onPeer (id : Token) (f : Vpeer → Vpeer) : List Vpeer → List Vpeer
  | [] => []
  | p :: ps => if vtokenEqual p.nodei.id id then f p :: ps else p :: onPeer id f ps

/-- What `_vroute_node_space_kick_node` does to the peer it finds. A peer that sent a message has
been heard of now, and if it had been pinged more than once without an answer it waits for the
initial time again. -/
def kickPeer (space : NodeSpace) (now : Int) (p : Vpeer) : Vpeer :=
  { p with
    tick_ts := now
    next_tmo := if p.ntry_pings > 1 then space.init_next_tmo else p.next_tmo }

/-- The space and whether the id was found. -/
def kickNode (space : NodeSpace) (id : Token) (now : Int) : NodeSpace × Bool :=
  let idx := vnodeIdBucket space.myid id
  let b := space.bucket idx
  (space.setBucket idx { b with peers := onPeer id (kickPeer space now) b.peers },
    b.peers.any fun p => vtokenEqual p.nodei.id id)

/-- `_vroute_node_space_adjust_connectivity`: a connection that was probed replaces that of the peer
with the id, unless that one is better. -/
def adjustConnectivity (space : NodeSpace) (targetId : Token) (conn : VnodeConn) : NodeSpace :=
  let idx := vnodeIdBucket space.myid targetId
  let b := space.bucket idx
  space.setBucket idx
    { b with
      peers := onPeer targetId (fun p => { p with conn := vnodeConnAdjust p.conn conn }) b.peers }

/-- All peers of the space, bucket by bucket. -/
def NodeSpace.peers (space : NodeSpace) : List Vpeer := allItems fun i => (space.bucket i).peers

/-- The calls that an iteration makes, peer after peer, bucket after bucket. -/
def forPeers (space : NodeSpace) (f : Vpeer → List DhtCall) : List DhtCall :=
  space.peers.flatMap f

/-- A peer that is neither unreachable nor fake. -/
def isGood (space : NodeSpace) (p : Vpeer) : Bool :=
  !(p.next_tmo ≥ space.max_next_tmo_unreachable) && !vnodeInfoIsFake p.nodei

/-- `_vroute_node_space_probe_node`: for a node that is not a peer itself, every good peer is asked
to find it. -/
def probeNode (space : NodeSpace) (targetId : Token) : List DhtCall :=
  let peers := (space.bucket (vnodeIdBucket space.myid targetId)).peers
  if peers.any fun p => vtokenEqual p.nodei.id targetId then []
  else forPeers space fun p => if isGood space p then [.findNode p.conn targetId] else []

/-- `_vroute_node_space_air_service`: a service is posted to every good peer. -/
def airService (space : NodeSpace) (srvci : VsrvcInfo) : List DhtCall :=
  forPeers space fun p => if isGood space p then [.postService p.conn srvci] else []

/-- `_vroute_node_space_probe_service`: every good peer is asked for the service of a hash. -/
def probeService (space : NodeSpace) (hash : Token) : List DhtCall :=
  forPeers space fun p => if isGood space p then [.findService p.conn hash] else []

/-- `_vroute_node_space_reflex_addr`: every peer that can be reached and has a public address is
asked under which address it sees a local one. -/
def reflexAddr (space : NodeSpace) (addr : SockaddrIn) : List DhtCall :=
  forPeers space fun p =>
    if p.next_tmo ≥ space.max_next_tmo_unreachable then []
    else if vsockaddrIsPublic p.conn.raddr then [.reflex (vnodeConnSetRaw addr p.conn.raddr)]
    else []

/-- Whether `probe_connectivity` probes the peer at all. -/
def wantsProbe (space : NodeSpace) (p : Vpeer) : Bool :=
  !(p.ntry_probes ≥ space.max_probe_tms) && isGood space p

/-- The probes to one peer; the index `i` of the loop stays 0. -/
def probeCalls (laddr : VsockaddrIn) (p : Vpeer) : Res (List DhtCall) :=
  if p.nodei.naddrs ≤ 0 then .ok []
  else
    match getSlot p.nodei.addrs 0 with
    | .error e => .error e
    | .ok raddr =>
      .ok (List.replicate p.nodei.naddrs.toNat (.probe (vnodeConnSet laddr raddr) p.nodei.id))

/-- `_aux_space_probe_connectivity_cb` over a list of peers. -/
def probePeers (space : NodeSpace) (laddr : VsockaddrIn) :
    List Vpeer → Res (List Vpeer × List DhtCall)
  | [] => .ok ([], [])
  | p :: ps =>
    if wantsProbe space p then
      match probeCalls laddr p with
      | .error e => .error e
      | .ok calls =>
        match probePeers space laddr ps with
        | .error e => .error e
        | .ok (ps, rest) => .ok ({ p with ntry_probes := p.ntry_probes + 1 } :: ps, calls ++ rest)
    else
      match probePeers space laddr ps with
      | .error e => .error e
      | .ok (ps, rest) => .ok (p :: ps, rest)

/-- Run a step on every bucket in turn and collect the calls. -/
def eachBucket (step : Fin NBUCKETS → Bucket → Res (Bucket × List DhtCall)) (space : NodeSpace) :
    List (Fin NBUCKETS) → Res (NodeSpace × List DhtCall)
  | [] => .ok (space, [])
  | i :: is =>
    match step i (space.bucket i) with
    | .error e => .error e
    | .ok (b, calls) =>
      match eachBucket step (space.setBucket i b) is with
      | .error e => .error e
      | .ok (space, rest) => .ok (space, calls ++ rest)

/-- `_vroute_node_space_probe_connectivity`: from a local address the addresses of all the peers are
probed, as far as these have not been probed too often. -/
def probeConnectivity (space : NodeSpace) (laddr : VsockaddrIn) :
    Res (NodeSpace × List DhtCall) :=
  eachBucket
    (fun _ b =>
      match probePeers space laddr b.peers with
      | .error e => .error e
      | .ok (ps, calls) => .ok ({ b with peers := ps }, calls))
    space (List.finRange NBUCKETS)

/-- `_aux_space_ping_nodei_cb`. `next_tmo` is an `int32_t` and `ntry_pings` an `int`; what is added to
them wraps. -/
def pingPeer (space : NodeSpace) (now : Int) (p : Vpeer) : Vpeer × List DhtCall :=
  if p.tick_ts + p.next_tmo > now then (p, [])
  else if p.ntry_pings > space.max_ping_tms ∧ vnodeInfoIsFake p.nodei then (p, [])
  else
    ({ p with
        ntry_pings := castInt (p.ntry_pings + 1)
        tick_ts := now
        next_tmo :=
          if castInt (p.ntry_pings + 1) > space.max_ping_tms then
            vminimum (castInt (p.next_tmo + space.next_tmo_step)) space.max_next_tmo_unreachable
          else p.next_tmo },
      [.ping p.conn])

/-- One bucket of the tick; `rand` is the number `varray_get_rand` reduces. -/
def tickBucket (space : NodeSpace) (now : Int) (rand : Nat) (b : Bucket) :
    Res (Bucket × List DhtCall) :=
  let peers := b.peers.map fun p => (pingPeer space now p).1
  let pings := b.peers.flatMap fun p => (pingPeer space now p).2
  if peers.length = 0 then .ok ({ b with peers := peers }, pings)
  else if b.ts + space.max_next_tmo > now then .ok ({ b with peers := peers }, pings)
  else
    match getSlot peers (rand % peers.length) with
    | .error e => .error e
    | .ok p =>
      if isGood space p then
        .ok (⟨peers, now⟩, pings ++ [.findClosestNodes p.conn space.myid])
      else .ok ({ b with peers := peers }, pings)

/-- `_vroute_node_space_tick`: bucket after bucket the peers that waited long enough are pinged, and
a bucket that was not refreshed for long asks one of its peers for the nodes closest to the own id.
-/
def nodeSpaceTick (space : NodeSpace) (rand : Fin NBUCKETS → Nat) (now : Int) :
    Res (NodeSpace × List DhtCall) :=
  eachBucket (fun i b => tickBucket space now (rand i) b) space (List.finRange NBUCKETS)

/-- `_vroute_node_space_clear`: all buckets are emptied, and keep their times. -/
def nodeSpaceClear (space : NodeSpace) : NodeSpace :=
  { space with bucket := fun i => { space.bucket i with peers := [] } }

/-- The weight of a record that leaves the space, without the bonus of `bumpWeight`. -/
def dropWeight (space : NodeSpace) (nodei : VnodeInfo) : VnodeInfo :=
  if vtokenEqual nodei.ver space.myver then { nodei with weight := nodei.weight - 1 } else nodei

/-- `none` when the node is not in the space. -/
def findNode (space : NodeSpace) (targetId : Token) (nodei : VnodeInfo) :
    Res (Option VnodeInfo) :=
  let peers := (space.bucket (vnodeIdBucket space.myid targetId)).peers
  match peers.find? fun p => vtokenEqual p.nodei.id targetId with
  | none => .ok none
  | some p =>
    match vnodeInfoCopy nodei p.nodei with
    | .error e => .error e
    | .ok (d, _) => .ok (some (dropWeight space d))

/-! ## Runs -/

/-- The operations that change the space of peers. -/
inductive SpaceOp where
  | addNode (nodei : VnodeInfo) (flag : AddFlag)
  | kickNode (id : Token)
  | adjustConnectivity (targetId : Token) (conn : VnodeConn)
  | probeConnectivity (laddr : VsockaddrIn)
  | tick (rand : Fin NBUCKETS → Nat)
  | clear

/-- One operation at a time of the clock; the calls it makes do not matter to the space. -/
def spaceExec (space : NodeSpace) (op : Int × SpaceOp) : Res NodeSpace :=
  match op with
  | (now, .addNode nodei flag) => addNode space nodei flag now
  | (now, .kickNode id) => .ok (kickNode space id now).1
  | (_, .adjustConnectivity id conn) => .ok (adjustConnectivity space id conn)
  | (_, .probeConnectivity laddr) => (probeConnectivity space laddr).map (·.1)
  | (now, .tick rand) => (nodeSpaceTick space rand now).map (·.1)
  | (_, .clear) => .ok (nodeSpaceClear space)

end Vdht.Route
