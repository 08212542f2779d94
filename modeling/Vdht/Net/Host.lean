import Vdht.Dht.Labels
import Vdht.Lib.Network
import Vdht.Route.Effects
import Vdht.Rpc.Msger

/-!
# Hosts in a network

A message that the route pushes is packed behind a header and goes to the socket of another host,
which unpacks it and calls its route. The socket delivers to the receive buffer, the handler reads
the message from there, so zeros follow it. Every node is a host with a route, with nonces and an
allocator of its own.
-/

namespace Vdht.Net

open Vdht.Core Dht Lib NodeId Route Rpc

/-! ## Packing -/

/-- `_aux_vhost_pack_msg_cb`; the header goes to the eight bytes that `vdht_buf_alloc` leaves in
front of the message. -/
def auxVhostPackMsgCb (msgId : Int32) (msg : List UInt8) : Option (List UInt8) :=
  if msgId = VMSG_DHT then some (putU32 DHT_MAGIC ++ putI32 msgId ++ msg) else none

/-- What `recvmsg` stores of a datagram. -/
def datagram (addr spec : SockaddrIn) (bytes : List UInt8) : Datagram where
  addr := addr
  spec := spec
  bytes := bytes.take RCV_BUF_SZ
  fits := List.length_take_le _ _

/-- `_aux_route_msg_cb` with a message of the host; `data` is the receive buffer. -/
def auxRouteMsgCb (w : World) (m : Arrival) (data : List UInt8) (mu : VmsgUsr) : RouteM Int :=
  match mu.data, mu.spec, mu.addr with
  | some off, some spec, some addr =>
    routeMsgCb w { m with conn := vnodeConnSetRaw spec addr } (data.drop off) mu.len
  | _, _, _ => lift (.error .null)

/-- What comes with a datagram: its addresses, what is left of `vmsg_usr`, and the inputs of the
handler. -/
structure Delivery where
  addr : SockaddrIn
  spec : SockaddrIn
  usrMsg : VmsgUsr
  m : Arrival

/-- The calls of the route that a datagram makes. -/
def dispatch (w : World) (x : Delivery) (data : List UInt8) : CbCalls → Vroute → Vroute
  | [], s => s
  | (_, mu) :: calls, s => dispatch w x data calls (endState (auxRouteMsgCb w x.m data mu s))

/-- `_vrpc_rcv` of a host whose only callback is the one of the route. -/
def hostRcv (w : World) (x : Delivery) (bytes : List UInt8) (s : Vroute) : Vroute :=
  let dgram := datagram x.addr x.spec bytes
  match vrpcRcv hostCbs x.usrMsg (some dgram) with
  | .error _ => s
  | .ok (_, calls) => dispatch w x (receive dgram).data.data calls s

/-- What a handler knows of a delivery; the connection goes back to the address that the datagram
came from. -/
def Delivery.arrival (x : Delivery) : Arrival :=
  { x.m with conn := vnodeConnSetRaw x.spec x.addr }

section Receiving

variable {msg packed : List UInt8}

theorem length_packed (h : auxVhostPackMsgCb VMSG_DHT msg = some packed) :
    packed.length = msg.length + 8 := by
  cases h
  rw [List.length_append, List.length_append, length_putU32, length_putI32]
  omega

/-- The host that receives a packed message runs the handler on it, once. -/
theorem hostRcv_packed (w : World) (x : Delivery) (s : Vroute)
    (h : auxVhostPackMsgCb VMSG_DHT msg = some packed) (hpos : 0 < msg.length)
    (hlen : (msg.length : Int) ≤ vdhtBufLen) :
    ∃ rest, hostRcv w x packed s =
      endState (routeMsgCb w x.arrival (msg ++ rest) msg.length s) := by
  have hsize := length_packed h
  have hbuf : vdhtBufLen = 4088 := rfl
  have hrcv : RCV_BUF_SZ = 8192 := rfl
  have htake : packed.take RCV_BUF_SZ = packed := List.take_of_length_le (by omega)
  have hpacked : packed = putU32 DHT_MAGIC ++ (putI32 VMSG_DHT ++ msg) := by
    cases h
    rw [List.append_assoc]
  generalize hd : datagram x.addr x.spec packed = dgram
  have hbytes : dgram.bytes = packed := by
    rw [← hd]
    exact htake
  have hmagic : dgram.StartsDht := by
    rw [Datagram.StartsDht, hbytes, hpacked]
    exact List.prefix_append _ _
  have hid : dgram.msgId = VMSG_DHT := by
    rw [Datagram.msgId, hbytes, hpacked, List.drop_left' (length_putU32 _), getI32_put]
  have hdgram : (dgram.bytes.length : Int) - 8 = msg.length := by
    rw [hbytes]
    omega
  have hcalls := @vrpcRcv_dht x.usrMsg dgram hmagic (by omega) (by rw [hid]; decide)
  rw [if_pos hid] at hcalls
  obtain ⟨rest, hdata, -⟩ := @receive_data dgram
  have hfront : (receive dgram).data.data.drop 8 = msg ++ rest := by
    rw [hdata, hbytes, hpacked, ← List.append_assoc, List.append_assoc (putU32 DHT_MAGIC ++ _)]
    apply List.drop_left'
    rw [List.length_append, length_putU32, length_putI32]
  have haddr : dgram.addr = x.addr ∧ dgram.spec = x.spec := by
    rw [← hd]
    exact ⟨rfl, rfl⟩
  refine ⟨rest, ?_⟩
  unfold hostRcv
  rw [hd]
  dsimp only
  rw [hcalls]
  dsimp only [dispatch, auxRouteMsgCb, dhtMsg]
  rw [hfront, hdgram, haddr.1, haddr.2]
  rfl

end Receiving

/-! ## Nodes -/

/-- A message that was pushed. -/
structure Sent where
  id : DhtId
  conn : VnodeConn
  nonce : Vnonce
  msg : List UInt8

/-- The message of an event that pushed one. -/
def sentMsg : RouteEvent → Option Sent
  | .pushed id conn nonce msg => some ⟨id, conn, nonce, msg⟩
  | _ => none

theorem mem_sent {s : Vroute} {m : Sent} (h : m ∈ s.log.filterMap sentMsg) :
    .pushed m.id m.conn m.nonce m.msg ∈ s.log := by
  obtain ⟨e, he, heq⟩ := List.mem_filterMap.mp h
  cases e with
  | pushed id conn nonce msg =>
    cases heq
    exact he
  | accepted | reaped | nodePassed | srvcPassed | shown => cases heq

/-- The nodes of a network. A fault leaves a node in the state in which it happens. -/
def nodes {ι : Type} (w : ι → World) : Party ι Vroute RouteOp Delivery Sent where
  act i op s := endState (routeOp (w i) op s)
  recv i x m s := hostRcv (w i) x ((auxVhostPackMsgCb VMSG_DHT m.msg).getD []) s
  sent s := s.log.filterMap sentMsg

section Steps

variable {ι : Type} {w : ι → World}

theorem auxRouteMsgCb_cases (v : World) (m : Arrival) (data : List UInt8) (mu : VmsgUsr) :
    (∃ m' buf, auxRouteMsgCb v m data mu = routeMsgCb v m' buf mu.len) ∨
      auxRouteMsgCb v m data mu = lift (.error .null) := by
  unfold auxRouteMsgCb
  split
  · exact Or.inl ⟨_, _, rfl⟩
  · exact Or.inr rfl

theorem hostRcv_keeps {v : World} {I : Vroute → Prop}
    (hop : ∀ op s, I s → I (endState (routeOp v op s))) (x : Delivery) (bytes : List UInt8)
    {s : Vroute} (hs : I s) : I (hostRcv v x bytes s) := by
  have hdispatch : ∀ data calls s, I s → I (dispatch v x data calls s) := by
    intro data calls
    induction calls with
    | nil => exact fun s hs => hs
    | cons call calls ih =>
      intro s hs
      apply ih
      rcases auxRouteMsgCb_cases v x.m data call.2 with ⟨m', buf, h⟩ | h
      · rw [h]
        exact hop (.recv m' buf call.2.len) s hs
      · rw [h]
        exact hs
  unfold hostRcv
  dsimp only
  split
  · exact hs
  · exact hdispatch _ _ s hs

/-- What every operation of the route keeps, every step of a node keeps, whatever it receives. -/
theorem nodes_keeps {i : ι} {I : Vroute → Prop}
    (hop : ∀ op s, I s → I (endState (routeOp (w i) op s))) (l : NodeStep RouteOp Delivery Sent)
    {s : Vroute} (hs : I s) : I ((nodes w).step i l s) := by
  cases l with
  | act op => exact hop op s hs
  | recv x m => exact hostRcv_keeps hop x _ hs

theorem nodes_log (i : ι) (l : NodeStep RouteOp Delivery Sent) (s : Vroute) :
    s.log <+: ((nodes w).step i l s).log :=
  nodes_keeps (I := fun t => s.log <+: t.log)
    (fun op t ht => ht.trans (Effects.log (acts_routeOp op t))) l (List.prefix_refl _)

variable [DecidableEq ι]

theorem netStep_log (net : ι → Vroute) (o : NetOp ι RouteOp Delivery) (j : ι) :
    (net j).log <+: (netStep (nodes w) net o j).log :=
  netStep_forall (I := fun j (s : Vroute) => (net j).log <+: s.log) (fun _ => List.prefix_refl _)
    (fun i l _ => nodes_log i l (net i)) j

/-- The invariant rule for single nodes. -/
theorem netRun_keeps {I : ι → Vroute → Prop}
    (hop : ∀ i op s, I i s → I i (endState (routeOp (w i) op s))) {net : ι → Vroute}
    (h : ∀ i, I i (net i)) (ops : List (NetOp ι RouteOp Delivery)) (j : ι) :
    I j (netRun (nodes w) net ops j) := by
  refine netRun_invariant (J := fun net => ∀ i, I i (net i)) (A := fun _ => True) ?_ h
    (fun _ _ => trivial) j
  intro net o hnet _
  exact netStep_forall (I := I) hnet fun i l _ => nodes_keeps (hop i) l (hnet i)

end Steps

/-- All datagrams come from the nodes of the network. -/
def Honest {ι : Type} (o : NetOp ι RouteOp Delivery) : Prop :=
  ∀ i m buf len, o ≠ .act i (.recv m buf len)

/-- A node before its first operation. -/
structure Started (s : Vroute) : Prop where
  log : s.log = []
  tickets : s.tickets = []

end Vdht.Net
