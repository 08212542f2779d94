import Vdht.Dht.Encode
import Vdht.Lib.Mutex

/-!
# The locks of the node and of the routing table

The two callbacks that run beside each other: `_aux_node_tick_cb` on the timer thread and
`_aux_route_msg_cb` on the network thread. Both take `node->lock` and `route->lock`, which are
recursive. A run of a callback is described by the branches it takes; from them follows the
script of its lock actions. A tick that finds the node up, running or down enters the lock of
the routing table under the lock of the node. An accepted `reflex` response enters them in the
opposite order, and no other message enters the lock of the node at all.
-/

namespace Vdht.Node

open Lib Dht
open Lib.LockAct (under Balanced Nests)

/-- The two locks of a node, that of the node itself and that of its route. -/
inductive NodeLock where
  | node
  | route
deriving DecidableEq, Repr

/-- The two threads of a node: the one of the timer and the one that receives messages. -/
inductive NodeThread where
  | timer
  | network
deriving DecidableEq, Repr

/-- `enum vnode_mode` -/
inductive VnodeMode where
  | off
  | up
  | run
  | down
  | err
deriving DecidableEq, Repr

/-- The locks that a thread enters and leaves, in their order. -/
abbrev LockScript := List (LockAct NodeLock)

/-! ## Operations of the routing table -/

/-- `_vroute_inspect`, `n` times -/
def vrouteInspect (n : Nat) : LockScript := (List.replicate n (under .route [])).flatten

/-- `_vroute_load`: what is under the lock of the route takes no other lock. -/
def vrouteLoad : LockScript := under .route []

/-- `_vroute_store`: what is under the lock of the route takes no other lock. -/
def vrouteStore : LockScript := under .route []

/-- `_vroute_join_node` -/
def vrouteJoinNode : LockScript := under .route []

/-- `_vroute_air_service` -/
def vrouteAirService : LockScript := under .route []

/-- Every `reflex` query that is sent is inspected. -/
def vrouteReflexAddr (sent : Nat) : LockScript := under .route (vrouteInspect sent)

/-- `_vroute_probe_connectivity`, with the inspections of the messages it sends. -/
def vrouteProbeConnectivity (sent : Nat) : LockScript := under .route (vrouteInspect sent)

/-- `_vroute_tick`, with the inspections of the messages it sends. -/
def vrouteTick (sent : Nat) : LockScript := under .route (vrouteInspect sent)

/-! ## The timer callback -/

/-- The branches one run of `_aux_node_tick_cb` takes. -/
structure TickRun where
  mode : VnodeMode
  /-- boot nodes that are not addresses of the node itself -/
  boots : Nat
  /-- for each address to be reflexed, how many queries are sent -/
  reflexes : List Nat
  /-- `node->tick_ts + node->tick_tmo < now` -/
  tickDue : Bool
  /-- for each address to be probed, how many queries are sent -/
  probes : List Nat
  services : Nat
  /-- `node->wb_ts + node->wb_tmo < now` -/
  wbDue : Bool
  /-- queries sent by the tick of the routing table -/
  sent : Nat

/-- `_aux_node_get_eaddrs`: an address of the node after the other is sent through the route to be
reflected. -/
def auxNodeGetEaddrs (r : TickRun) : LockScript := (r.reflexes.map vrouteReflexAddr).flatten

/-- `_aux_node_probe_connectivity`: an address of the node after the other is probed through the
route. -/
def auxNodeProbeConnectivity (r : TickRun) : LockScript :=
  (r.probes.map vrouteProbeConnectivity).flatten

/-- `_vnode_renice`, under the lock of the node alone. -/
def vnodeRenice : LockScript := under .node []

/-- `_vnode_tick`: under the lock of the node, the addresses are looked up and probed and each
service is announced, all through the route. -/
def vnodeTick (r : TickRun) : LockScript :=
  under .node (auxNodeGetEaddrs r ++ auxNodeProbeConnectivity r ++
    (List.replicate r.services vrouteAirService).flatten)

/-- `_aux_node_tick_cb`: what the timer does in each mode of the node, under the lock of the node.
-/
def auxNodeTickCb (r : TickRun) : LockScript :=
  under .node
    (match r.mode with
    | .off => []
    | .err => []
    | .up =>
      vrouteLoad ++ (List.replicate r.boots vrouteJoinNode).flatten ++ auxNodeGetEaddrs r
    | .run =>
      (if r.tickDue then vnodeRenice ++ vnodeTick r else []) ++
        (if r.wbDue then vrouteStore else []) ++ vrouteTick r.sent
    | .down => vrouteStore)

/-! ## The message callback -/

/-- The branches one run of `_aux_route_msg_cb` takes. -/
structure MsgRun where
  /-- the kind that `dec_begin` finds, unless it refuses the message -/
  kind : Option DhtId
  /-- the decoder and the checks behind it let the handler run to its end -/
  accepted : Bool
  /-- queries sent by `probe_node` -/
  sent : Nat

/-- `_vnode_reflex_addr` -/
def vnodeReflexAddrLocks : LockScript := under .node []

/-- `route_cb_ops` -/
def vrouteCb (m : MsgRun) : DhtId → LockScript
  | .ping => if m.accepted then vrouteInspect 1 else []
  | .pingRsp => if m.accepted then vrouteInspect 1 else []
  | .findNode => []
  | .findNodeRsp => if m.accepted then vrouteInspect 1 else []
  | .findClosestNodes => []
  | .findClosestNodesRsp => if m.accepted then vrouteInspect 1 else []
  | .reflex => []
  | .reflexRsp => if m.accepted then vnodeReflexAddrLocks ++ vrouteInspect 1 else []
  | .probe => []
  | .probeRsp => if m.accepted then vrouteInspect 1 else []
  | .postService => if m.accepted then vrouteInspect 1 else []
  | .findService => []
  | .findServiceRsp => vrouteInspect m.sent ++ if m.accepted then vrouteInspect 1 else []

/-- `_aux_route_msg_cb`: a message that can be decoded is handled under the lock of the route. -/
def auxRouteMsgCb (m : MsgRun) : LockScript :=
  match m.kind with
  | none => []
  | some id => under .route (vrouteCb m id)

/-- The two threads, each running its callback any number of times. -/
def nodeScripts (ticks : List TickRun) (msgs : List MsgRun) : NodeThread → LockScript
  | .timer => (ticks.map auxNodeTickCb).flatten
  | .network => (msgs.map auxRouteMsgCb).flatten

/-! ## Every callback gives its locks back -/

theorem balanced_under_nil (l : NodeLock) : Balanced (under l []) := Balanced.nil.under

theorem balanced_replicate {script : LockScript} (h : Balanced script) (n : Nat) :
    Balanced (List.replicate n script).flatten :=
  Balanced.flatten fun s hs => by
    obtain rfl := List.eq_of_mem_replicate hs
    exact h

theorem balanced_map {α : Type} {f : α → LockScript} (h : ∀ x, Balanced (f x)) (xs : List α) :
    Balanced (xs.map f).flatten :=
  Balanced.flatten fun s hs => by
    obtain ⟨x, -, rfl⟩ := List.mem_map.mp hs
    exact h x

theorem balanced_inspect (n : Nat) : Balanced (vrouteInspect n) :=
  balanced_replicate (balanced_under_nil .route) n

theorem balanced_getEaddrs (r : TickRun) : Balanced (auxNodeGetEaddrs r) :=
  balanced_map (fun sent => (balanced_inspect sent).under) r.reflexes

theorem balanced_probeConnectivity (r : TickRun) : Balanced (auxNodeProbeConnectivity r) :=
  balanced_map (fun sent => (balanced_inspect sent).under) r.probes

theorem balanced_vnodeTick (r : TickRun) : Balanced (vnodeTick r) := by
  have hair := balanced_replicate (balanced_under_nil .route) r.services
  exact (((balanced_getEaddrs r).append (balanced_probeConnectivity r)).append hair).under

theorem balanced_tickDue (r : TickRun) :
    Balanced (if r.tickDue then vnodeRenice ++ vnodeTick r else []) := by
  split
  · exact (balanced_under_nil .node).append (balanced_vnodeTick r)
  · exact Balanced.nil

theorem balanced_wbDue (r : TickRun) : Balanced (if r.wbDue then vrouteStore else []) := by
  split
  · exact balanced_under_nil .route
  · exact Balanced.nil

theorem balanced_tickCb (r : TickRun) : Balanced (auxNodeTickCb r) := by
  apply Balanced.under
  cases r.mode with
  | off => exact Balanced.nil
  | err => exact Balanced.nil
  | up =>
    have hjoin := balanced_replicate (balanced_under_nil .route) r.boots
    exact ((balanced_under_nil .route).append hjoin).append (balanced_getEaddrs r)
  | run =>
    exact ((balanced_tickDue r).append (balanced_wbDue r)).append (balanced_inspect r.sent).under
  | down => exact balanced_under_nil .route

theorem balanced_accepted {script : LockScript} (h : Balanced script) (accepted : Bool) :
    Balanced (if accepted then script else []) := by
  cases accepted with
  | true => exact h
  | false => exact Balanced.nil

theorem balanced_msgCb (m : MsgRun) : Balanced (auxRouteMsgCb m) := by
  unfold auxRouteMsgCb
  cases m.kind with
  | none => exact Balanced.nil
  | some id =>
    apply Balanced.under
    have hinspect := balanced_accepted (balanced_inspect 1) m.accepted
    cases id with
    | ping | pingRsp | findNodeRsp | findClosestNodesRsp | probeRsp | postService => exact hinspect
    | findNode | findClosestNodes | reflex | probe | findService => exact Balanced.nil
    | reflexRsp =>
      exact balanced_accepted ((balanced_under_nil .node).append (balanced_inspect 1)) _
    | findServiceRsp => exact (balanced_inspect m.sent).append hinspect

/-! ## Which callbacks nest the locks -/

/-- The tick works under the lock of the node. -/
def TickRun.active (r : TickRun) : Bool :=
  match r.mode with
  | .off => false
  | .err => false
  | _ => true

/-- An accepted `reflex` response. -/
def MsgRun.reflexes (m : MsgRun) : Bool := m.kind = some .reflexRsp ∧ m.accepted

theorem active_eq_false_iff (r : TickRun) : r.active = false ↔ r.mode = .off ∨ r.mode = .err := by
  unfold TickRun.active
  cases r.mode <;> simp

/-- An idle tick enters no lock but that of the node. -/
theorem route_not_mem_tickCb {r : TickRun} (h : r.active = false) :
    .enter .route ∉ auxNodeTickCb r := by
  rcases (active_eq_false_iff r).mp h with hm | hm <;> simp [auxNodeTickCb, hm, under]

theorem node_not_mem_inspect (n : Nat) : LockAct.enter NodeLock.node ∉ vrouteInspect n := by
  intro h
  obtain ⟨script, hs, hmem⟩ := List.mem_flatten.mp h
  obtain rfl := List.eq_of_mem_replicate hs
  simp [under] at hmem

/-- A message that is no accepted `reflex` response stays away from the lock of the node. -/
theorem node_not_mem_msgCb {m : MsgRun} (h : m.reflexes = false) :
    .enter .node ∉ auxRouteMsgCb m := by
  have hone := node_not_mem_inspect 1
  have hsent := node_not_mem_inspect m.sent
  unfold auxRouteMsgCb
  cases hk : m.kind with
  | none => simp
  | some id =>
    cases ha : m.accepted with
    | false => cases id <;> simp [under, vrouteCb, ha, hsent]
    | true =>
      cases id with
      | reflexRsp => simp [MsgRun.reflexes, hk, ha] at h
      | _ => simp [under, vrouteCb, ha, hone, hsent]

/-- An active tick, up to a point where it enters the lock of the routing table while it holds
that of the node only. -/
theorem tickCb_nests {r : TickRun} (h : r.active = true) :
    ∃ pre post, auxNodeTickCb r = .enter .node :: pre ++ .enter .route :: post ∧ Balanced pre := by
  unfold auxNodeTickCb
  cases hm : r.mode with
  | off => simp [TickRun.active, hm] at h
  | err => simp [TickRun.active, hm] at h
  | up => exact ⟨[], _, rfl, Balanced.nil⟩
  | run =>
    have hpre := (balanced_tickDue r).append (balanced_wbDue r)
    exact ⟨_, vrouteInspect r.sent ++ [.leave .route] ++ [.leave .node],
      by simp [under, vrouteTick], hpre⟩
  | down => exact ⟨[], _, rfl, Balanced.nil⟩

/-- An accepted `reflex` response enters the lock of the node right after that of the routing
table. -/
theorem msgCb_nests {m : MsgRun} (h : m.reflexes = true) :
    ∃ post, auxRouteMsgCb m = .enter .route :: .enter .node :: post := by
  obtain ⟨hk, ha⟩ : m.kind = some .reflexRsp ∧ m.accepted = true := by
    simpa [MsgRun.reflexes] using h
  exact ⟨_, by simp [auxRouteMsgCb, hk, ha, vrouteCb, vnodeReflexAddrLocks, under]; rfl⟩

/-! ## The threads cross exactly when both kinds occur -/

/-- Some interleaving leads to a state in which the two threads wait for each other. -/
def CanCross (ticks : List TickRun) (msgs : List MsgRun) : Prop :=
  ∃ s t u, LockState.Reaches (LockState.init (nodeScripts ticks msgs)) s ∧
    s.Crossed NodeLock.node NodeLock.route t u

theorem flatten_split {α : Type} {f : α → LockScript} (hf : ∀ x, Balanced (f x)) {xs : List α}
    {x : α} (hx : x ∈ xs) :
    ∃ before after, (xs.map f).flatten = before ++ f x ++ after ∧ Balanced before := by
  obtain ⟨before, after, rfl⟩ := List.append_of_mem hx
  exact ⟨(before.map f).flatten, (after.map f).flatten, by simp, balanced_map hf before⟩

theorem mem_flatten_map {α : Type} {f : α → LockScript} {xs : List α} {a : LockAct NodeLock}
    (h : a ∈ (xs.map f).flatten) : ∃ x ∈ xs, a ∈ f x := by
  obtain ⟨script, hs, ha⟩ := List.mem_flatten.mp h
  obtain ⟨x, hx, rfl⟩ := List.mem_map.mp hs
  exact ⟨x, hx, ha⟩

theorem canCross_of_active {ticks : List TickRun} {msgs : List MsgRun} {r : TickRun} {m : MsgRun}
    (hr : r ∈ ticks) (hra : r.active = true) (hm : m ∈ msgs) (hma : m.reflexes = true) :
    CanCross ticks msgs := by
  obtain ⟨before, after, hticks, hbefore⟩ := flatten_split balanced_tickCb hr
  obtain ⟨before', after', hmsgs, hbefore'⟩ := flatten_split balanced_msgCb hm
  obtain ⟨pre, post, htick, hpre⟩ := tickCb_nests hra
  obtain ⟨post', hmsg⟩ := msgCb_nests hma
  have hdepth : LockAct.depth (fun _ => 0) (before ++ .enter .node :: pre) =
      LockAct.apply (fun _ => 0) (.enter NodeLock.node) := by
    rw [LockAct.depth_append, hbefore, LockAct.depth_cons, hpre]
  have htimer : nodeScripts ticks msgs .timer =
      (before ++ .enter .node :: pre) ++ .enter .route :: (post ++ after) := by
    simp [nodeScripts, hticks, htick]
  have hnetwork : nodeScripts ticks msgs .network =
      before' ++ .enter .route :: .enter .node :: (post' ++ after') := by
    simp [nodeScripts, hmsgs, hmsg]
  have hthreads : NodeThread.timer ≠ NodeThread.network := nofun
  obtain ⟨s, hreach, hcross⟩ := LockState.exists_crossed hthreads htimer hnetwork hbefore'
    (by rw [hdepth]; simp [LockAct.apply]) (by rw [hdepth]; simp [LockAct.apply])
  exact ⟨s, _, _, hreach, hcross⟩

theorem active_of_canCross {ticks : List TickRun} {msgs : List MsgRun}
    (h : CanCross ticks msgs) :
    (∃ r ∈ ticks, r.active = true) ∧ ∃ m ∈ msgs, m.reflexes = true := by
  obtain ⟨s, t, u, hreach, hcross⟩ := h
  have htu := hcross.1
  obtain ⟨ht, hu⟩ := hcross.nests hreach
  have hboth : (.enter .route ∈ nodeScripts ticks msgs .timer) ∧
      .enter .node ∈ nodeScripts ticks msgs .network := by
    cases t with
    | timer =>
      cases u with
      | timer => exact absurd rfl htu
      | network => exact ⟨ht.mem_inner, hu.mem_inner⟩
    | network =>
      cases u with
      | timer => exact ⟨hu.mem_outer, ht.mem_outer⟩
      | network => exact absurd rfl htu
  obtain ⟨r, hr, hroute⟩ := mem_flatten_map hboth.1
  obtain ⟨m, hm, hnode⟩ := mem_flatten_map hboth.2
  refine ⟨⟨r, hr, ?_⟩, ⟨m, hm, ?_⟩⟩
  · by_contra hra
    exact route_not_mem_tickCb (by simpa using hra) hroute
  · by_contra hma
    exact node_not_mem_msgCb (by simpa using hma) hnode

/-- No interleaving of the two threads, however long, leads to a state in which each waits for
the lock the other one holds, if and only if every tick finds the node off or in error or no
message is an accepted `reflex` response. -/
theorem never_crossed_iff (ticks : List TickRun) (msgs : List MsgRun) :
    (∀ s t u, LockState.Reaches (LockState.init (nodeScripts ticks msgs)) s →
      ¬ s.Crossed NodeLock.node NodeLock.route t u) ↔
    (∀ r ∈ ticks, r.mode = .off ∨ r.mode = .err) ∨
      ∀ m ∈ msgs, ¬ (m.kind = some .reflexRsp ∧ m.accepted = true) := by
  have hkind : ∀ m : MsgRun, m.reflexes = true ↔
      m.kind = some .reflexRsp ∧ m.accepted = true := by
    intro m
    simp [MsgRun.reflexes]
  constructor
  · intro hnever
    by_contra hc
    simp only [not_or, not_forall, not_not] at hc
    obtain ⟨⟨r, hr, hmode⟩, m, hm, hreflex⟩ := hc
    have hra : r.active = true := by
      rw [← Bool.not_eq_false, active_eq_false_iff]
      exact not_or.mpr hmode
    obtain ⟨s, t, u, hreach, hcross⟩ := canCross_of_active hr hra hm ((hkind m).mpr hreflex)
    exact hnever s t u hreach hcross
  · intro h s t u hreach hcross
    obtain ⟨⟨r, hr, hra⟩, m, hm, hma⟩ := active_of_canCross ⟨s, t, u, hreach, hcross⟩
    rcases h with hidle | hnone
    · rw [(active_eq_false_iff r).mpr (hidle r hr)] at hra
      cases hra
    · exact hnone m hm ((hkind m).mp hma)

/-- A tick of the running node and an accepted `reflex` response. -/
theorem tick_crosses_reflexRsp :
    ∃ s t u, LockState.Reaches (LockState.init (nodeScripts
        [⟨.run, 0, [], false, [], 0, false, 0⟩] [⟨some .reflexRsp, true, 0⟩])) s ∧
      s.Crossed NodeLock.node NodeLock.route t u :=
  canCross_of_active List.mem_cons_self rfl List.mem_cons_self rfl

end Vdht.Node
