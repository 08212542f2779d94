import Vdht.Net.Services
import Vdht.Route.InfoRun

/-!
# Networks without faults

A crafted message can fault a node in many ways. The nodes themselves send no such message: in a
network of nodes whose own records are sound, no operation and no delivery ever faults a node,
whatever is lost, copied, reordered or misdirected. Neither do addresses come from nowhere.
-/

namespace Vdht.Net

open Vdht.Core Dht Lib NodeId Route Rpc

/-! ## More addresses -/

section Mono

variable {K K' : AddrKey → Prop}

theorem AddrsIn.mono (hK : ∀ k, K k → K' k) {l : List VsockaddrIn} (h : AddrsIn K l) :
    AddrsIn K' l := fun a ha => hK _ (h a ha)

theorem Known.mono (hK : ∀ k, K k → K' k) {n : VnodeInfo} (h : Known K n) : Known K' n :=
  ⟨h.toWellFormed, AddrsIn.mono hK h.addrs⟩

theorem sayable_mono (hK : ∀ k, K k → K' k) {d : DhtMsg} (h : Sayable K d) : Sayable K' d := by
  cases d with
  | pingRsp | findNodeRsp => exact ⟨h.1, Known.mono hK h.2⟩
  | findClosestNodesRsp => exact ⟨h.1, fun n hn => ⟨(h.2 n hn).1, Known.mono hK (h.2 n hn).2⟩⟩
  | reflexRsp => exact hK _ h
  | ping | findNode | findClosestNodes | reflex | probe | probeRsp | postService | findService
  | findServiceRsp => exact h

theorem uttered_mono (hK : ∀ k, K k → K' k) {d : DhtMsg} {id : DhtId} {nonce : Vnonce}
    {msg : List UInt8} (h : Uttered K d id nonce msg) : Uttered K' d id nonce msg :=
  ⟨sayable_mono hK h.sayable, h.written, h.id_eq, h.nonce_eq⟩

theorem healthy_mono (hK : ∀ k, K k → K' k) {s : Vroute} (h : Healthy K s) : Healthy K' s where
  nodes := ⟨h.nodes.inv, fun p hp => AddrsIn.mono hK (h.nodes.addrs p hp)⟩
  services := h.services
  own := h.own
  own_pos := h.own_pos
  own_addrs := AddrsIn.mono hK h.own_addrs
  sent := by
    intro id conn nonce msg hmem
    obtain ⟨d, hd⟩ := h.sent id conn nonce msg hmem
    exact ⟨d, uttered_mono hK hd⟩

end Mono

/-! ## Steps -/

section Steps

variable {ι : Type} {w : ι → World}

/-- A step brings the address that a user joins, or from which a datagram came. -/
def Gives (l : NodeStep RouteOp Delivery Sent) (k : AddrKey) : Prop :=
  (∃ freshId addr now, l = .act (.joinNode freshId addr now) ∧ addr.key = k) ∨
    ∃ x m, l = .recv x m ∧ x.addr.key = k

/-- The message of a healthy node runs the handler of the receiver, to its end. -/
theorem healthy_delivery {K : AddrKey → Prop} {s : Vroute} (hs : Healthy K s) {m : Sent} {d : DhtMsg}
    (hd : Uttered K d m.id m.nonce m.msg) (v : World) {x : Delivery} (hx : K x.addr.key) :
    ∃ rest r s', hostRcv v x ((auxVhostPackMsgCb VMSG_DHT m.msg).getD []) s = s' ∧
      routeMsgCb v x.arrival (m.msg ++ rest) m.msg.length s = .ok r s' ∧ Healthy K s' := by
  obtain ⟨ctxt, hlabel, htold⟩ := hd.told
  obtain ⟨rest, hrcv⟩ := hostRcv_packed v x s (if_pos rfl) hlabel.opens.pos hlabel.length_le
  have hadmits : Admits K (.recv x.arrival (m.msg ++ rest) m.msg.length) :=
    ⟨hx, m.id, ctxt, hlabel.opens.opened rest, htold⟩
  obtain ⟨r, s', hok, hs'⟩ := healthy_routeOp v hadmits s hs
  replace hok : routeMsgCb v x.arrival (m.msg ++ rest) m.msg.length s = .ok r s' := hok
  refine ⟨rest, r, s', hrcv.trans ?_, hok, hs'⟩
  rw [hok]
  rfl

/-- An operation of the user or the timer that a node can take. -/
def Sound (op : RouteOp) : Prop :=
  (∀ m buf len, op ≠ .recv m buf len) ∧ ∀ srvci now, op = .airService srvci now → srvci.Kept

theorem healthy_act {K : AddrKey → Prop} {s : Vroute} (hs : Healthy K s) {op : RouteOp} (hop : Sound op)
    (hjoin : ∀ freshId addr now, op = .joinNode freshId addr now → K addr.key) (v : World) :
    ∃ r s', routeOp v op s = .ok r s' ∧ Healthy K s' := by
  refine healthy_routeOp v ?_ s hs
  cases op with
  | recv m buf len => exact absurd rfl (hop.1 m buf len)
  | joinNode freshId addr now => exact hjoin freshId addr now rfl
  | airService srvci now => exact hop.2 srvci now rfl
  | tick | findService | probeService | reflexAddr | probeConnectivity | clear => trivial

/-- The nodes carry addresses. -/
theorem carrying_addrs :
    Carrying (nodes w) (fun _ l => ∀ op, l = .act op → Sound op) (fun _ _ l => Gives l)
      (fun K _ s => Healthy K s)
      (fun K m => ∃ d, Uttered K d m.id m.nonce m.msg) where
  mono := fun hK hs => healthy_mono hK hs
  sent := fun hs hm => hs.sent _ _ _ _ (mem_sent hm)
  step := by
    intro K i s l hok hs htells
    have hmore : ∀ k, K k → K k ∨ Gives l k := fun k => Or.inl
    cases l with
    | act op =>
      obtain ⟨r, s', hrun, hs'⟩ := healthy_act (healthy_mono hmore hs) (hok op rfl)
        (fun freshId addr now hop => Or.inr (Or.inl ⟨freshId, addr, now, hop ▸ rfl, rfl⟩)) (w i)
      show Healthy _ (endState (routeOp (w i) op s))
      rw [hrun]
      exact hs'
    | recv x m =>
      obtain ⟨d, hd⟩ := htells x m rfl
      obtain ⟨rest, r, s', hrcv, -, hs'⟩ := healthy_delivery (healthy_mono hmore hs)
        (uttered_mono hmore hd) (w i) (x := x) (Or.inr (Or.inr ⟨x, m, rfl, rfl⟩))
      show Healthy _ (hostRcv (w i) x _ s)
      rw [hrcv]
      exact hs'

end Steps

/-! ## Runs -/

/-- A node that can start: its own record and its tables are sound. -/
structure Ready (s : Vroute) : Prop extends Started s where
  nodes : s.node_space.Inv
  services : ∀ b, ∀ t ∈ s.srvc_space.bucket b, InOrder t.srvci
  own : s.node.nodei.Sound
  own_pos : 1 ≤ s.node.nodei.naddrs

section Runs

variable {ι : Type} {w : ι → World}

/-- The addresses of a run: those the nodes start with, those they join, and those from which
datagrams come. -/
def Given (net : ι → Vroute) (ops : List (NetOp ι RouteOp Delivery)) (k : AddrKey) : Prop :=
  (∃ i, ∃ a ∈ (net i).node.nodei.used, addrKey a = k) ∨
    (∃ i, ∃ p ∈ (net i).node_space.peers, ∃ a ∈ p.nodei.used, addrKey a = k) ∨
    (∃ i freshId addr now, .act i (.joinNode freshId addr now) ∈ ops ∧ addr.key = k) ∨
    ∃ src n dst x, .deliver src n dst x ∈ ops ∧ x.addr.key = k

/-- All operations of the run are operations a node can take. -/
def AllSound (ops : List (NetOp ι RouteOp Delivery)) : Prop := ∀ i op, .act i op ∈ ops → Sound op

theorem Ready.healthy {s : Vroute} (h : Ready s) {K : AddrKey → Prop} (hown : AddrsIn K s.node.nodei.used)
    (hpeers : ∀ p ∈ s.node_space.peers, AddrsIn K p.nodei.used) : Healthy K s where
  nodes := ⟨h.nodes, hpeers⟩
  services := h.services
  own := h.own
  own_pos := h.own_pos
  own_addrs := hown
  sent := by
    intro id conn nonce msg hmem
    rw [h.log] at hmem
    exact absurd hmem List.not_mem_nil

variable [DecidableEq ι] {net : ι → Vroute} {ops : List (NetOp ι RouteOp Delivery)}

theorem netRun_healthy (hready : ∀ i, Ready (net i)) (hops : AllSound ops) (j : ι) :
    Healthy (Given net ops) (netRun (nodes w) net ops j) := by
  refine netRun_within carrying_addrs (K := fun _ => Given net ops) (A := fun o => o ∈ ops)
    ?_ (fun _ _ _ hk => hk) ?_ (fun _ ho => ho) (fun i => ?_) j
  · intro net' o i l ho hs op hl
    subst hl
    cases o with
    | act i' op' =>
      cases hs
      exact hops i op ho
    | deliver src k dst x =>
      obtain ⟨m, -, heq⟩ := Option.map_eq_some_iff.mp hs
      cases heq
  · intro net' o i l k ho hs hgives
    cases o with
    | act i' op' =>
      cases hs
      rcases hgives with ⟨freshId, addr, now, hl, hk⟩ | ⟨x, m, hl, -⟩
      · cases hl
        exact Or.inr (Or.inr (Or.inl ⟨i, freshId, addr, now, ho, hk⟩))
      · cases hl
    | deliver src n dst x =>
      obtain ⟨m, -, heq⟩ := Option.map_eq_some_iff.mp hs
      cases heq
      rcases hgives with ⟨freshId, addr, now, hl, -⟩ | ⟨x', m', hl, hk⟩
      · cases hl
      · cases hl
        exact Or.inr (Or.inr (Or.inr ⟨src, n, i, x, ho, hk⟩))
  · refine (hready i).healthy (fun a ha => Or.inl ⟨i, a, ha, rfl⟩) fun p hp a ha => ?_
    exact Or.inr (Or.inl ⟨i, p, hp, a, ha, rfl⟩)

theorem netRun_anywhere (hready : ∀ i, Ready (net i)) (hops : AllSound ops) (i : ι) :
    Healthy (fun _ => True) (netRun (nodes w) net ops i) :=
  healthy_mono (fun _ _ => trivial) (netRun_healthy hready hops i)

/-- In every run of nodes that start sound, with an address of their own, whose users announce records
as a node registers them: every address that a node has stored, of itself or of a peer, is one that some
node started with, in its own record or in that of a peer, or was told to join, or one from which a
datagram came. -/
theorem addresses_given (w : ι → World) {net : ι → Vroute} (hready : ∀ i, Ready (net i))
    {ops : List (NetOp ι RouteOp Delivery)} (hops : AllSound ops) (j : ι) :
    (∀ a ∈ (netRun (nodes w) net ops j).node.nodei.used, Given net ops (addrKey a)) ∧
      ∀ p ∈ (netRun (nodes w) net ops j).node_space.peers, ∀ a ∈ p.nodei.used,
        Given net ops (addrKey a) :=
  ⟨(netRun_healthy hready hops j).own_addrs, (netRun_healthy hready hops j).nodes.addrs⟩

end Runs

/-! ## Two nodes -/

/-- A node whose record has room for its addresses. -/
def readyNode (i : Bool) : Vroute :=
  { knownNode i with
    node := ⟨{ (knownNode i).node.nodei with addrs := List.replicate 4 zeroAddr }, false, none⟩ }

theorem sound_readyNode (i : Bool) : (readyNode i).node.nodei.Sound := by
  refine ⟨⟨Int.zero_le_ofNat 4, ?_, Int.dvd_refl 4, rfl⟩, Int.zero_le_ofNat 1, ?_⟩
  · show (4 : Int) ≤ 12
    decide
  · show (1 : Int) ≤ 4
    decide

theorem ready_readyNode (i : Bool) : Ready (readyNode i) where
  log := rfl
  tickets := rfl
  nodes := inv_init _ _ _ _ _
  services := fun _ _ ht => absurd ht List.not_mem_nil
  own := sound_readyNode i
  own_pos := Int.le_refl 1

theorem allSound_findOps : AllSound findOps := by
  intro i op hmem
  refine ⟨fun m buf len hop => ?_, fun srvci now hop => ?_⟩
  · exact honest_findOps _ hmem i m buf len (hop ▸ rfl)
  · subst hop
    exact airs_findOps hmem ▸ storedService_kept

theorem findOps_peers :
    (netRun (nodes pairWorld) readyNode findOps true).node_space.peers.map
      (fun p => p.nodei.used.length) = [1] := by
  decide +kernel

/-- Node 1 has stored the address of node 0. -/
theorem addresses_given_found :
    ∃ p ∈ (netRun (nodes pairWorld) readyNode findOps true).node_space.peers,
      ∃ a ∈ p.nodei.used, Given readyNode findOps (addrKey a) := by
  have hmem : 1 ∈ (netRun (nodes pairWorld) readyNode findOps true).node_space.peers.map
      (fun p => p.nodei.used.length) := by
    rw [findOps_peers]
    exact List.mem_singleton_self _
  obtain ⟨p, hp, hlen⟩ := List.mem_map.mp hmem
  obtain ⟨a, ha⟩ := List.exists_mem_of_length_pos (hlen ▸ Nat.one_pos)
  exact ⟨p, hp, a, ha,
    (addresses_given pairWorld ready_readyNode allSound_findOps true).2 p hp a ha⟩

end Vdht.Net
