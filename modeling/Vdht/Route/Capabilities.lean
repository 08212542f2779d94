import Vdht.Cfg.Item
import Vdht.Route.Accounting

/-!
# Capabilities

A node may be configured to take part in some kinds of DHT messages only. The capabilities are
read once, from the tuple `dht.protocol`, and the senders of most messages look at them. The
senders of `reflex`, `probe` and their responses do not.
-/

namespace Vdht.Route

open Vdht.Core Cfg Dht Lib Node NodeId

/-! ## Reading the configuration -/

/-- `dhtId_global_desc`: the kinds of message in the order of their numbers, each with the name that
stands for it in the protocol texts and in the configuration. -/
def dhtIdGlobalDesc : List (DhtId × String) :=
  [(.ping, "ping"), (.pingRsp, "ping_rsp"), (.findNode, "find_node"),
    (.findNodeRsp, "find_node_rsp"), (.findClosestNodes, "find_closest_nodes"),
    (.findClosestNodesRsp, "find_closest_nodes_rsp"), (.reflex, "reflex"),
    (.reflexRsp, "reflex_rsp"), (.probe, "probe"), (.probeRsp, "probe_rsp"),
    (.postService, "post_service"), (.findService, "find_service"),
    (.findServiceRsp, "find_service_rsp")]

/-- `vdht_get_dhtId_by_desc`: the kind of message that a text names, if the table has it. -/
def vdhtGetDhtIdByDesc (desc : List UInt8) : Option DhtId := getIdByDesc dhtIdGlobalDesc desc

/-- `*props |= (1 << dht_id)` -/
def setProp (props : UInt32) (id : DhtId) : UInt32 := props ||| (1 <<< dhtIdCode id)

/-- The loop over the tuple; what it has set before an item it cannot read stays. -/
def loadCaps : List VcfgItem → UInt32 → UInt32 × Int
  | [], props => (props, 0)
  | .str _ s :: items, props =>
    match vdhtGetDhtIdByDesc s with
    | none => (props, -1)
    | some id => loadCaps items (setProp props id)
  | _ :: _, props => (props, -1)

/-- `_aux_route_load_proto_caps`: the properties that a configuration adds. Without the tuple only
the pings are added. -/
def auxRouteLoadProtoCaps (tuple : Option (List VcfgItem)) (props : UInt32) : UInt32 × Int :=
  match tuple with
  | none => (setProp (setProp props .ping) .pingRsp, 0)
  | some items => loadCaps items props

/-- `vroute_init`, which ignores whether the configuration could be read; the route is cleared
memory before. -/
def configuredRoute (tuple : Option (List VcfgItem)) (myid : Token) (nodeSpace : NodeSpace)
    (bucketSz : Nat) (node : Vnode) : Vroute :=
  vrouteInit myid (auxRouteLoadProtoCaps tuple 0).1 nodeSpace bucketSz node

theorem hasProp_setProp (props : UInt32) (a b : DhtId) :
    hasProp (setProp props a) b = (hasProp props b || decide (a = b)) := by
  have hdistrib : (props ||| 1 <<< dhtIdCode a) &&& (1 <<< dhtIdCode b) =
      (props &&& (1 <<< dhtIdCode b)) ||| (1 <<< dhtIdCode a &&& (1 <<< dhtIdCode b)) := by
    rw [← UInt32.toBitVec_inj]
    exact BitVec.and_or_distrib_right
  have hbits : (1 <<< dhtIdCode a &&& (1 <<< dhtIdCode b) : UInt32) = 0 ↔ ¬ a = b := by
    cases a <;> cases b <;> decide
  rw [hasProp, hasProp, setProp, hdistrib, Bool.eq_iff_iff, Bool.or_eq_true,
    decide_eq_true_eq, decide_eq_true_eq, decide_eq_true_eq, ne_eq, UInt32.or_eq_zero_iff, hbits,
    not_and_or, not_not]

/-- The kind an item of the tuple names. -/
def itemKind : VcfgItem → Option DhtId
  | .str _ s => vdhtGetDhtIdByDesc s
  | _ => none

/-- The kinds named in front of the first item that names none. -/
def listedKinds (items : List VcfgItem) : List DhtId :=
  ((items.map itemKind).takeWhile Option.isSome).filterMap id

theorem loadCaps_cons (item : VcfgItem) (items : List VcfgItem) (props : UInt32) :
    loadCaps (item :: items) props =
      match itemKind item with
      | none => (props, -1)
      | some id => loadCaps items (setProp props id) := by
  cases item with
  | str depth s => rw [loadCaps, itemKind]
  | dict | list | tuple => rfl

/-- The capabilities are those that are listed. -/
theorem hasProp_loadCaps (items : List VcfgItem) (props : UInt32) (id : DhtId) :
    hasProp (loadCaps items props).1 id = true ↔
      hasProp props id = true ∨ id ∈ listedKinds items := by
  induction items generalizing props with
  | nil => simp [loadCaps, listedKinds]
  | cons item items ih =>
    rw [loadCaps_cons]
    cases hkind : itemKind item with
    | none => simp [listedKinds, hkind]
    | some kind =>
      have hlist : listedKinds (item :: items) = kind :: listedKinds items := by
        simp [listedKinds, hkind]
      dsimp only
      rw [ih, hasProp_setProp, Bool.or_eq_true, decide_eq_true_eq, hlist, List.mem_cons, or_assoc,
        @eq_comm _ kind id]

/-! ## Messages that may be sent -/

/-- The kind of the message that an event pushed, where the event is a push. -/
def pushedId : RouteEvent → Option DhtId
  | .pushed id _ _ _ => some id
  | _ => none

/-- The capabilities are `props`, and all messages that were pushed are of these kinds. -/
structure Licensed (props : UInt32) (s : Vroute) : Prop where
  caps : s.props = props
  pushed : ∀ id ∈ s.log.filterMap pushedId, hasProp props id = true

/-- A program that pushes only messages of kinds that are enabled. -/
abbrev Abides {α : Type} (props : UInt32) (p : RouteM α) : Prop :=
  Moves (Keeps (Licensed props)) p

section Programs

variable {props : UInt32}

/-- The log grows by events that are no messages. -/
theorem Licensed.unpushed {s s' : Vroute} (h : Licensed props s) (hprops : s'.props = s.props)
    {L : List RouteEvent} (hlog : s'.log = s.log ++ L) (hL : ∀ e ∈ L, pushedId e = none) :
    Licensed props s' where
  caps := hprops.trans h.caps
  pushed := by
    have hnil : L.filterMap pushedId = [] := List.filterMap_eq_nil_iff.mpr hL
    rw [hlog, List.filterMap_append, hnil, List.append_nil]
    exact h.pushed

theorem Licensed.quiet {s s' : Vroute} (h : Licensed props s) (hprops : s'.props = s.props)
    (hlog : s'.log = s.log) : Licensed props s' := by
  refine h.unpushed (L := []) hprops ?_ ?_
  · rw [hlog, List.append_nil]
  · exact fun e he => absurd he List.not_mem_nil

theorem abides_emit {events : List RouteEvent} (h : ∀ e ∈ events, pushedId e = none) :
    Abides props (emit events) := fun _ hs => hs.unpushed rfl rfl h

theorem abides_addTickets (now : Int) (infos : List TicketInfo) :
    Abides props (addTickets now infos) := fun _ hs => hs.quiet rfl rfl

theorem abides_checkTickets (arg : TicketArg) : Abides props (checkTickets arg) := by
  intro s hs
  unfold checkTickets
  split
  · exact hs
  · refine hs.unpushed rfl rfl ?_
    intro e he
    obtain ⟨call, -, rfl⟩ := List.mem_map.mp he
    rfl

theorem abides_withToken (nonce : Vnonce) {rest : RouteM Int} (hrest : Abides props rest) :
    Abides props (withToken nonce rest) := by
  refine moves_bind (abides_checkTickets _) fun found => ?_
  split
  · refine moves_bind (abides_emit ?_) fun _ => hrest
    intro e he
    rw [List.mem_singleton.mp he]
    rfl
  · exact moves_pure _

/-! ## Senders -/

variable (w : World)

theorem abides_sendMsg {id : DhtId} (hid : hasProp props id = true) (conn : VnodeConn)
    (nonce : Vnonce) (msg : Res (Option (List UInt8))) :
    Abides props (sendMsg w id conn nonce msg) := by
  intro s hs
  rcases sendMsg_cases w id conn nonce msg s with ⟨e, h⟩ | h | ⟨out, h⟩
  · rw [h]
    exact hs
  · rw [h]
    exact hs.quiet rfl rfl
  · rw [h]
    refine ⟨hs.caps, ?_⟩
    intro kind hkind
    have hlog : (s.log ++ [RouteEvent.pushed id conn nonce out]).filterMap pushedId =
        s.log.filterMap pushedId ++ [id] := by
      rw [List.filterMap_append]
      rfl
    rcases List.mem_append.mp (hlog ▸ hkind) with hkind | hkind
    · exact hs.pushed kind hkind
    · rwa [List.mem_singleton.mp hkind]

theorem abides_sendQuery {id : DhtId} (hid : hasProp props id = true) (conn : VnodeConn)
    (enc : Vnonce → Token → Int → Res (Option (List UInt8))) (tickets : Vnonce → List TicketInfo)
    (now : Int) : Abides props (sendQuery w id conn enc tickets now) := by
  apply moves_get_bind
  intro s
  refine moves_bind (abides_sendMsg w hid _ _ _) fun pushed => ?_
  split
  · exact moves_bind (abides_addTickets _ _) fun _ => moves_pure _
  · exact moves_pure _

theorem abides_sendRsp {id : DhtId} (hid : hasProp props id = true) (conn : VnodeConn)
    (nonce : Vnonce) (enc : Vnonce → Token → Int → Res (Option (List UInt8))) :
    Abides props (sendRsp w id conn nonce enc) := by
  apply moves_get_bind
  intro s
  exact moves_bind (abides_sendMsg w hid _ _ _) fun _ => moves_pure _

/-- A sender that looks at the capabilities. -/
theorem abides_gated (id : DhtId) {m : RouteM Int}
    (hm : hasProp props id = true → Abides props m) : Abides props (gated id m) := by
  intro s hs
  unfold gated
  rw [bind_ok_apply (get_apply s), hs.caps]
  split
  · rename_i hid
    exact hm hid s hs
  · exact hs

/-- The kind of a call whose sender does not look at the capabilities. -/
def openCall : DhtCall → Option DhtId
  | .reflex _ => some .reflex
  | .probe _ _ => some .probe
  | _ => none

theorem abides_dhtCall {c : DhtCall} (hc : ∀ id ∈ openCall c, hasProp props id = true)
    (now : Int) : Abides props (dhtCall w now c) := by
  cases c with
  | ping conn => exact abides_gated _ fun hid => abides_sendQuery w hid _ _ _ _
  | findNode conn target => exact abides_gated _ fun hid => abides_sendQuery w hid _ _ _ _
  | findClosestNodes conn target => exact abides_gated _ fun hid => abides_sendQuery w hid _ _ _ _
  | reflex conn => exact abides_sendQuery w (hc .reflex rfl) _ _ _ _
  | probe conn target =>
    unfold dhtCall dhtProbe
    exact abides_sendQuery w (hc .probe rfl) _ _ _ _
  | postService conn srvci => exact abides_gated _ fun hid => abides_sendQuery w hid _ _ _ _
  | findService conn hash => exact abides_gated _ fun hid => abides_sendQuery w hid _ _ _ _

theorem abides_dhtCalls {calls : List DhtCall}
    (h : ∀ c ∈ calls, ∀ id ∈ openCall c, hasProp props id = true) (now : Int) :
    Abides props (dhtCalls w now calls) := by
  induction calls with
  | nil => exact moves_pure _
  | cons c cs ih =>
    refine moves_bind (abides_dhtCall w (h c List.mem_cons_self) now) fun _ => ?_
    exact ih fun c' hc' => h c' (List.mem_cons_of_mem _ hc')

/-- Calls on good peers whose senders look at the capabilities. -/
theorem abides_forPeers (space : NodeSpace) {f : Vpeer → List DhtCall}
    (hf : ∀ p, ∀ c ∈ f p, openCall c = none) (now : Int) :
    Abides props (dhtCalls w now (forPeers space f)) := by
  refine abides_dhtCalls w ?_ now
  intro c hc id hid
  obtain ⟨p, -, hcp⟩ := List.mem_flatMap.mp hc
  rw [hf p c hcp] at hid
  cases hid

theorem abides_probeNode (space : NodeSpace) (id : Token) (now : Int) :
    Abides props (dhtCalls w now (probeNode space id)) := by
  unfold probeNode
  dsimp only
  split
  · exact moves_pure _
  · refine abides_forPeers w space ?_ now
    intro p c hc
    split at hc
    · rw [List.mem_singleton.mp hc]
      rfl
    · cases hc

/-! ## Handlers -/

theorem abides_kick (fromId : Token) (now : Int) : Abides props (kick fromId now) :=
  fun _ hs => hs.quiet rfl rfl

theorem abides_storeNode (nodei : VnodeInfo) (flag : AddFlag) (now : Int) :
    Abides props (storeNode nodei flag now) := by
  intro s hs
  unfold storeNode
  split
  · exact hs
  · exact hs.quiet rfl rfl

theorem abides_storeService (srvci : VsrvcInfo) (now : Int) :
    Abides props (storeService srvci now) := by
  intro s hs
  unfold storeService
  split
  · exact hs
  · exact hs.quiet rfl rfl

theorem abides_passNode (leaf : Option BeNode) (nodei : VnodeInfo) (flag : AddFlag) (now : Int) :
    Abides props (passNode leaf nodei flag now) := by
  refine moves_bind (abides_emit ?_) fun _ => abides_storeNode _ _ _
  intro e he
  rw [List.mem_singleton.mp he]
  rfl

theorem abides_passNodes (flag : AddFlag) (now : Int) (l : List (Option BeNode × VnodeInfo)) :
    Abides props (passNodes flag now l) := by
  induction l with
  | nil => exact moves_pure _
  | cons a l ih => exact moves_bind (abides_passNode _ _ _ _) fun _ => ih

theorem abides_passService (leaf : Option BeNode) (srvci : VsrvcInfo) (now : Int) :
    Abides props (passService leaf srvci now) := by
  refine moves_bind (abides_emit ?_) fun _ => abides_storeService _ _
  intro e he
  rw [List.mem_singleton.mp he]
  rfl

theorem abides_reflexNode (laddr : SockaddrIn) (eaddr : VsockaddrIn) :
    Abides props (reflexNode laddr eaddr) := by
  intro s hs
  unfold reflexNode
  split
  · exact hs
  · exact hs.quiet rfl rfl

theorem abides_welcome (known : Bool) (freshId : Token) (addr : SockaddrIn) (now : Int) :
    Abides props (welcome known freshId addr now) := by
  unfold welcome
  split
  · exact moves_pure _
  · exact moves_lift_bind fun nodei _ => abides_storeNode _ _ _

theorem abides_cbPing (m : Arrival) (ctxt : BeNode) : Abides props (cbPing w m ctxt) := by
  apply moves_lift_bind
  rintro ⟨nonce, fromId⟩ -
  refine moves_bind (abides_kick _ _) fun known => ?_
  refine moves_bind (abides_welcome _ _ _ _) fun _ => ?_
  apply moves_get_bind
  intro s
  exact abides_gated _ fun hid => abides_sendRsp w hid _ _ _

theorem abides_cbPingRsp (m : Arrival) (ctxt : BeNode) : Abides props (cbPingRsp m ctxt) := by
  apply moves_lift_bind
  rintro ⟨nonce, result⟩ -
  refine abides_withToken _ ?_
  exact moves_bind (abides_passNode _ _ _ _) fun _ => moves_pure _

theorem abides_cbFindNode (m : Arrival) (ctxt : BeNode) : Abides props (cbFindNode w m ctxt) := by
  apply moves_lift_bind
  rintro ⟨nonce, fromId, targetId⟩ -
  refine moves_bind (abides_kick _ _) fun _ => ?_
  apply moves_get_bind
  intro s
  apply moves_lift_bind
  intro found _
  cases found with
  | none => exact moves_pure _
  | some nodei => exact abides_gated _ fun hid => abides_sendRsp w hid _ _ _

theorem abides_cbFindNodeRsp (m : Arrival) (ctxt : BeNode) :
    Abides props (cbFindNodeRsp m ctxt) := by
  apply moves_lift_bind
  rintro ⟨nonce, fromId, result⟩ -
  refine abides_withToken _ ?_
  refine moves_bind (abides_kick _ _) fun _ => ?_
  exact moves_bind (abides_passNode _ _ _ _) fun _ => moves_pure _

theorem abides_cbFindClosestNodes (m : Arrival) (ctxt : BeNode) :
    Abides props (cbFindClosestNodes w m ctxt) := by
  apply moves_lift_bind
  rintro ⟨nonce, fromId, targetId⟩ -
  refine moves_bind (abides_kick _ _) fun _ => ?_
  apply moves_get_bind
  intro s
  apply moves_lift_bind
  intro closest _
  cases closest with
  | nil => exact moves_pure _
  | cons n ns => exact abides_gated _ fun hid => abides_sendRsp w hid _ _ _

theorem abides_cbFindClosestNodesRsp (m : Arrival) (ctxt : BeNode) :
    Abides props (cbFindClosestNodesRsp m ctxt) := by
  apply moves_lift_bind
  rintro ⟨nonce, fromId, closest⟩ -
  refine abides_withToken _ ?_
  refine moves_bind (abides_kick _ _) fun _ => ?_
  exact moves_bind (abides_passNodes _ _ _) fun _ => moves_pure _

theorem abides_cbReflexRsp (m : Arrival) (ctxt : BeNode) : Abides props (cbReflexRsp m ctxt) := by
  apply moves_lift_bind
  rintro ⟨nonce, fromId, addr⟩ -
  refine abides_withToken _ ?_
  refine moves_bind (abides_kick _ _) fun _ => ?_
  exact moves_bind (abides_reflexNode _ _) fun _ => moves_pure _

theorem abides_cbProbeRsp (m : Arrival) (ctxt : BeNode) : Abides props (cbProbeRsp m ctxt) := by
  apply moves_lift_bind
  rintro ⟨nonce, fromId⟩ -
  refine abides_withToken _ ?_
  refine moves_bind (abides_kick _ _) fun _ => ?_
  exact moves_bind (abides_checkTickets _) fun _ => moves_pure _

theorem abides_cbPostService (m : Arrival) (ctxt : BeNode) :
    Abides props (cbPostService m ctxt) := by
  apply moves_lift_bind
  rintro ⟨nonce, fromId, srvci⟩ -
  refine moves_bind (abides_kick _ _) fun _ => ?_
  exact moves_bind (abides_passService _ _ _) fun _ => moves_pure _

theorem abides_cbFindService (m : Arrival) (ctxt : BeNode) :
    Abides props (cbFindService w m ctxt) := by
  apply moves_lift_bind
  rintro ⟨nonce, fromId, hash⟩ -
  refine moves_bind (abides_kick _ _) fun _ => ?_
  apply moves_get_bind
  intro s
  apply moves_lift_bind
  rintro ⟨srvci, found⟩ -
  dsimp only
  split
  · exact abides_gated _ fun hid => abides_sendRsp w hid _ _ _
  · exact moves_pure _

theorem abides_cbFindServiceRsp (m : Arrival) (ctxt : BeNode) :
    Abides props (cbFindServiceRsp w m ctxt) := by
  apply moves_lift_bind
  rintro ⟨nonce, fromId, result⟩ -
  refine abides_withToken _ ?_
  refine moves_bind (abides_kick _ _) fun _ => ?_
  refine moves_bind (abides_passService _ _ _) fun _ => ?_
  apply moves_get_bind
  intro s
  refine moves_bind (abides_probeNode w _ _ _) fun _ => ?_
  exact moves_bind (abides_checkTickets _) fun _ => moves_pure _

/-- All handlers but those of the two queries whose answers are not checked. -/
theorem abides_routeCbOps {id : DhtId} (hreflex : id ≠ .reflex) (hprobe : id ≠ .probe)
    (m : Arrival) (ctxt : BeNode) : Abides props (routeCbOps w m ctxt id) := by
  cases id with
  | ping => exact abides_cbPing w m ctxt
  | pingRsp => exact abides_cbPingRsp m ctxt
  | findNode => exact abides_cbFindNode w m ctxt
  | findNodeRsp => exact abides_cbFindNodeRsp m ctxt
  | findClosestNodes => exact abides_cbFindClosestNodes w m ctxt
  | findClosestNodesRsp => exact abides_cbFindClosestNodesRsp m ctxt
  | reflex => exact absurd rfl hreflex
  | reflexRsp => exact abides_cbReflexRsp m ctxt
  | probe => exact absurd rfl hprobe
  | probeRsp => exact abides_cbProbeRsp m ctxt
  | postService => exact abides_cbPostService m ctxt
  | findService => exact abides_cbFindService w m ctxt
  | findServiceRsp => exact abides_cbFindServiceRsp w m ctxt

end Programs

/-! ## Operations -/

/-- Whether `reflex_addr` asks the peer. -/
def wantsReflex (space : NodeSpace) (p : Vpeer) : Bool :=
  !(p.next_tmo ≥ space.max_next_tmo_unreachable) && vsockaddrIsPublic p.conn.raddr

/-- The operation reaches the sender of a kind of message that does not look at the
capabilities. -/
inductive OpenSend (s : Vroute) : RouteOp → DhtId → Prop where
  | reflex {p : Vpeer} (addr : SockaddrIn) (now : Int) (hp : p ∈ s.node_space.peers)
      (hwants : wantsReflex s.node_space p = true) : OpenSend s (.reflexAddr addr now) .reflex
  | probe {p : Vpeer} (laddr : VsockaddrIn) (now : Int) (hp : p ∈ s.node_space.peers)
      (hwants : wantsProbe s.node_space p = true) (haddrs : 0 < p.nodei.naddrs) :
      OpenSend s (.probeConnectivity laddr now) .probe
  | reflexRsp {m : Arrival} {buf : List UInt8} {len : Int} {ctxt : BeNode} {r : Vnonce × Token}
      (hbegin : decBegin buf len = .ok (some (.reflex, ctxt)))
      (hdec : decReflex ctxt m.nonce m.fromId = .ok r) : OpenSend s (.recv m buf len) .reflexRsp
  | probeRsp {m : Arrival} {buf : List UInt8} {len : Int} {ctxt : BeNode} {nonce : Vnonce}
      {fromId : Token} (hbegin : decBegin buf len = .ok (some (.probe, ctxt)))
      (hdec : decProbe ctxt m.nonce m.fromId m.targetId = .ok (nonce, fromId, s.myid)) :
      OpenSend s (.recv m buf len) .probeRsp

/-- An operation that reaches such a sender finds the kind enabled. -/
def SendsEnabled (s : Vroute) (op : RouteOp) : Prop :=
  ∀ id, OpenSend s op id → hasProp s.props id = true

section Operations

variable {props : UInt32} (w : World)

theorem licensed_recv {s : Vroute} (hs : Licensed props s) {m : Arrival} {buf : List UInt8}
    {len : Int} (hop : SendsEnabled s (.recv m buf len)) :
    Licensed props (endState (routeMsgCb w m buf len s)) := by
  unfold routeMsgCb
  cases hbegin : decBegin buf len with
  | error e => exact hs
  | ok opened =>
    rw [bind_ok_apply (lift_ok _ s)]
    cases opened with
    | none => exact hs
    | some opened =>
      obtain ⟨id, ctxt⟩ := opened
      dsimp only
      by_cases hreflex : id = .reflex
      · subst hreflex
        show Licensed props (endState (cbReflex w m ctxt s))
        unfold cbReflex
        cases hdec : decReflex ctxt m.nonce m.fromId with
        | error e => exact hs
        | ok r =>
          have hprop : hasProp props .reflexRsp = true := hs.caps ▸ hop _ (.reflexRsp hbegin hdec)
          obtain ⟨nonce, fromId⟩ := r
          rw [bind_ok_apply (lift_ok _ s)]
          exact moves_bind (abides_kick _ _) (fun _ => abides_sendRsp w hprop _ _ _) s hs
      · by_cases hprobe : id = .probe
        · subst hprobe
          show Licensed props (endState (cbProbe w m ctxt s))
          unfold cbProbe
          cases hdec : decProbe ctxt m.nonce m.fromId m.targetId with
          | error e => exact hs
          | ok r =>
            obtain ⟨nonce, fromId, targetId⟩ := r
            rw [bind_ok_apply (lift_ok _ s)]
            dsimp only
            rw [bind_ok_apply (get_apply s)]
            split
            · rename_i hmyid
              rw [vtokenEqual_iff.mp hmyid] at hdec
              have hprop : hasProp props .probeRsp = true := hs.caps ▸ hop _ (.probeRsp hbegin hdec)
              exact moves_bind (abides_kick _ _) (fun _ => abides_sendRsp w hprop _ _ _) s hs
            · exact hs
        · exact abides_routeCbOps w hreflex hprobe m ctxt s hs

theorem openCall_reflexAddr {space : NodeSpace} {addr : SockaddrIn} {c : DhtCall}
    (hc : c ∈ reflexAddr space addr) :
    openCall c = some .reflex ∧ ∃ p ∈ space.peers, wantsReflex space p = true := by
  obtain ⟨p, hp, hcp⟩ := List.mem_flatMap.mp hc
  split at hcp
  · cases hcp
  · rename_i htmo
    split at hcp
    · rename_i hpublic
      rw [List.mem_singleton.mp hcp]
      refine ⟨rfl, p, hp, ?_⟩
      rw [wantsReflex, hpublic, decide_eq_false htmo]
      rfl
    · cases hcp

theorem licensed_reflexAddr {s : Vroute} (hs : Licensed props s) {addr : SockaddrIn} {now : Int}
    (hop : SendsEnabled s (.reflexAddr addr now)) :
    Licensed props (endState (vrouteReflexAddr w addr now s)) := by
  unfold vrouteReflexAddr
  rw [bind_ok_apply (get_apply s)]
  refine moves_bind (abides_dhtCalls w ?_ now) (fun _ => moves_pure _) s hs
  intro c hc id hid
  obtain ⟨hopen, p, hp, hwants⟩ := openCall_reflexAddr hc
  rw [hopen] at hid
  cases hid
  exact hs.caps ▸ hop _ (.reflex addr now hp hwants)

theorem probePeers_calls {space : NodeSpace} {laddr : VsockaddrIn} {ps qs : List Vpeer}
    {calls : List DhtCall} (h : probePeers space laddr ps = .ok (qs, calls)) :
    ∀ c ∈ calls, openCall c = some .probe ∧
      ∃ p ∈ ps, wantsProbe space p = true ∧ 0 < p.nodei.naddrs := by
  induction ps generalizing qs calls with
  | nil =>
    cases h
    exact fun c hc => absurd hc List.not_mem_nil
  | cons p ps ih =>
    have htail : ∀ {rest : List Vpeer} {l : List DhtCall},
        probePeers space laddr ps = .ok (rest, l) → ∀ c ∈ l, openCall c = some .probe ∧
          ∃ q ∈ p :: ps, wantsProbe space q = true ∧ 0 < q.nodei.naddrs := by
      intro rest l hrest c hc
      obtain ⟨hopen, q, hq, hwants⟩ := ih hrest c hc
      exact ⟨hopen, q, List.mem_cons_of_mem _ hq, hwants⟩
    unfold probePeers at h
    split at h
    · rename_i hwants
      split at h
      · cases h
      · rename_i mine hmine
        split at h
        · cases h
        · rename_i rest l hrest
          cases h
          intro c hc
          rcases List.mem_append.mp hc with hc | hc
          · unfold probeCalls at hmine
            split at hmine
            · cases hmine
              cases hc
            · rename_i haddrs
              split at hmine
              · cases hmine
              · cases hmine
                rw [(List.mem_replicate.mp hc).2]
                exact ⟨rfl, p, List.mem_cons_self, hwants, by omega⟩
          · exact htail hrest c hc
    · split at h
      · cases h
      · rename_i rest l hrest
        cases h
        exact htail hrest

theorem licensed_onNodeSpace {s : Vroute} (hs : Licensed props s) (now : Int)
    {f : NodeSpace → Res (NodeSpace × List DhtCall)}
    (hf : ∀ space calls, f s.node_space = .ok (space, calls) →
      ∀ c ∈ calls, ∀ id ∈ openCall c, hasProp props id = true) :
    Licensed props (endState (onNodeSpace w now f s)) := by
  unfold onNodeSpace
  rw [bind_ok_apply (get_apply s)]
  cases h : f s.node_space with
  | error e => exact hs
  | ok r =>
    obtain ⟨space, calls⟩ := r
    rw [bind_ok_apply (lift_ok _ s)]
    dsimp only
    rw [bind_ok_apply (modify_apply _ s)]
    exact abides_dhtCalls w (hf space calls h) now _ (hs.quiet rfl rfl)

theorem licensed_probeConnectivity {s : Vroute} (hs : Licensed props s) {laddr : VsockaddrIn}
    {now : Int} (hop : SendsEnabled s (.probeConnectivity laddr now)) :
    Licensed props (endState (vrouteProbeConnectivity w laddr now s)) := by
  have hstep : Licensed props (endState
      (onNodeSpace w now (fun space => probeConnectivity space laddr) s)) := by
    refine licensed_onNodeSpace w hs now ?_
    intro space calls h c hc id hid
    have hbuckets := everyBucket_calls (C := fun b c => openCall c = some .probe ∧
      ∃ p ∈ b.peers, wantsProbe s.node_space p = true ∧ 0 < p.nodei.naddrs) (by
        intro i b b' calls' hb
        split at hb
        · cases hb
        · rename_i qs calls'' hqs
          cases hb
          exact probePeers_calls hqs) h
    obtain ⟨i, hopen, p, hp, hwants, haddrs⟩ := hbuckets c hc
    rw [hopen] at hid
    cases hid
    exact hs.caps ▸ hop _ (.probe laddr now (mem_peers_of_bucket hp) hwants haddrs)
  unfold vrouteProbeConnectivity
  rw [bind_apply]
  split
  · rename_i a t ht
    rwa [ht] at hstep
  · rename_i e t ht
    rwa [ht] at hstep

theorem tickBucket_calls {space : NodeSpace} {now : Int} {rand : Nat} {b b' : Bucket}
    {calls : List DhtCall} (h : tickBucket space now rand b = .ok (b', calls)) :
    ∀ c ∈ calls, openCall c = none := by
  have hpings : ∀ c ∈ b.peers.flatMap fun p => (pingPeer space now p).2, openCall c = none := by
    intro c hc
    obtain ⟨p, -, hcp⟩ := List.mem_flatMap.mp hc
    unfold pingPeer at hcp
    split at hcp
    · cases hcp
    · split at hcp
      · cases hcp
      · rw [List.mem_singleton.mp hcp]
        rfl
  unfold tickBucket at h
  dsimp only at h
  split at h
  · cases h
    exact hpings
  · split at h
    · cases h
      exact hpings
    · split at h
      · cases h
      · split at h
        · cases h
          intro c hc
          rcases List.mem_append.mp hc with hc | hc
          · exact hpings c hc
          · rw [List.mem_singleton.mp hc]
            rfl
        · cases h
          exact hpings

theorem abides_vrouteTick (rand : Fin NBUCKETS → Nat) (now : Int) :
    Abides props (vrouteTick w rand now) := by
  refine moves_bind ?_ fun _ => moves_bind ?_ fun _ => moves_pure _
  · intro s hs
    refine licensed_onNodeSpace w hs now ?_
    intro space calls h c hc id hid
    obtain ⟨i, hopen⟩ := everyBucket_calls (C := fun _ c => openCall c = none)
      (fun i b b' calls' hb => tickBucket_calls hb) h c hc
    rw [hopen] at hid
    cases hid
  · intro s hs
    refine hs.unpushed rfl (List.append_assoc _ _ _) ?_
    intro e he
    rcases List.mem_append.mp he with he | he
    · obtain ⟨call, -, rfl⟩ := List.mem_map.mp he
      rfl
    · obtain ⟨nonce, -, rfl⟩ := List.mem_map.mp he
      rfl

theorem abides_vrouteFindService (hash : Token) (cookie : Nat) :
    Abides props (vrouteFindService hash cookie) := by
  have hshown : ∀ call : Shown, Abides props (emit [RouteEvent.shown call]) := by
    intro call
    refine abides_emit fun e he => ?_
    rw [List.mem_singleton.mp he]
    rfl
  apply moves_get_bind
  intro s
  apply moves_lift_bind
  rintro ⟨srvci, found⟩ -
  dsimp only
  split
  · apply moves_lift_bind
    intro addrs _
    exact moves_bind (hshown _) fun _ => moves_pure _
  · exact moves_bind (hshown _) fun _ => moves_pure _

theorem abides_vrouteProbeService (hash : Token) (cookie : Nat) (now : Int) :
    Abides props (vrouteProbeService w hash cookie now) := by
  apply moves_get_bind
  intro s
  refine moves_bind (abides_forPeers w s.node_space ?_ now) fun _ => ?_
  · intro p c hc
    split at hc
    · rw [List.mem_singleton.mp hc]
      rfl
    · cases hc
  · exact moves_bind (abides_addTickets _ _) fun _ => moves_pure _

theorem abides_vrouteAirService (srvci : VsrvcInfo) (now : Int) :
    Abides props (vrouteAirService w srvci now) := by
  apply moves_get_bind
  intro s
  refine moves_bind (abides_forPeers w s.node_space ?_ now) fun _ => moves_pure _
  intro p c hc
  split at hc
  · rw [List.mem_singleton.mp hc]
    rfl
  · cases hc

theorem abides_vrouteClear : Abides props vrouteClear := by
  intro s hs
  refine hs.unpushed rfl rfl ?_
  intro e he
  obtain ⟨nonce, -, rfl⟩ := List.mem_map.mp he
  rfl

/-- One operation. -/
theorem licensed_routeOp {s : Vroute} (hs : Licensed props s) {op : RouteOp}
    (hop : SendsEnabled s op) : Licensed props (endState (routeOp w op s)) := by
  cases op with
  | recv m buf len => exact licensed_recv w hs hop
  | tick rand now => exact abides_vrouteTick w rand now s hs
  | joinNode freshId addr now =>
    exact moves_lift_bind
      (fun nodei _ => moves_bind (abides_storeNode _ _ _) fun _ => moves_pure _) s hs
  | findService hash cookie => exact abides_vrouteFindService hash cookie s hs
  | probeService hash cookie now => exact abides_vrouteProbeService w hash cookie now s hs
  | airService srvci now => exact abides_vrouteAirService w srvci now s hs
  | reflexAddr addr now => exact licensed_reflexAddr w hs hop
  | probeConnectivity laddr now => exact licensed_probeConnectivity w hs hop
  | clear => exact moves_bind abides_vrouteClear (fun _ => moves_pure _) s hs

theorem licensed_routeExec {s s' : Vroute} {op : RouteOp} (hs : Licensed props s)
    (hop : SendsEnabled s op) (h : routeExec w s op = .ok s') : Licensed props s' := by
  have hend := licensed_routeOp w hs hop
  unfold routeExec at h
  split at h
  · rename_i a t ht
    rw [ht] at hend
    cases h
    exact hend
  · cases h

theorem licensed_init (tuple : Option (List VcfgItem)) (myid : Token) (nodeSpace : NodeSpace)
    (bucketSz : Nat) (node : Vnode) :
    Licensed (auxRouteLoadProtoCaps tuple 0).1
      (configuredRoute tuple myid nodeSpace bucketSz node) :=
  ⟨rfl, fun _ hid => absurd hid List.not_mem_nil⟩

theorem Licensed.enabled_of_pushed {s : Vroute} (hs : Licensed props s) {id : DhtId}
    {conn : VnodeConn} {nonce : Vnonce} {msg : List UInt8}
    (h : .pushed id conn nonce msg ∈ s.log) : hasProp props id = true :=
  hs.pushed id (List.mem_filterMap.mpr ⟨_, h, rfl⟩)

/-- In every run whose steps find the kinds enabled that are sent without a check, every message
that was pushed is of an enabled kind, and so is every message of a next step of this sort,
however it ends. -/
theorem pushed_enabled (tuple : Option (List VcfgItem)) (myid : Token) (nodeSpace : NodeSpace)
    (bucketSz : Nat) (node : Vnode) {ops : List RouteOp} {s : Vroute}
    (hops : Along (routeExec w) SendsEnabled
      (configuredRoute tuple myid nodeSpace bucketSz node) ops)
    (h : run (routeExec w) (configuredRoute tuple myid nodeSpace bucketSz node) ops = .ok s) :
    (∀ id conn nonce msg, .pushed id conn nonce msg ∈ s.log → hasProp s.props id = true) ∧
      ∀ op, SendsEnabled s op → ∀ id conn nonce msg,
        .pushed id conn nonce msg ∈ (endState (routeOp w op s)).log →
          hasProp s.props id = true := by
  have hs := along_invariant (fun s op s' hs hop => licensed_routeExec w hs hop)
    (licensed_init tuple myid nodeSpace bucketSz node) hops h
  rw [hs.caps]
  exact ⟨fun id conn nonce msg => hs.enabled_of_pushed,
    fun op hop id conn nonce msg => (licensed_routeOp w hs hop).enabled_of_pushed⟩

/-- A configuration that lists the four kinds sent without a check is respected by every run. -/
theorem sendsEnabled_of_listed {items : List VcfgItem}
    (hitems : ∀ id ∈ [DhtId.reflex, .reflexRsp, .probe, .probeRsp], id ∈ listedKinds items)
    (myid : Token) (nodeSpace : NodeSpace) (bucketSz : Nat) (node : Vnode)
    (ops : List RouteOp) :
    Along (routeExec w) SendsEnabled
      (configuredRoute (some items) myid nodeSpace bucketSz node) ops := by
  have henabled : ∀ (s : Vroute) (op : RouteOp), Licensed (loadCaps items 0).1 s →
      SendsEnabled s op := by
    intro s op hs id hid
    have hfour : id ∈ [DhtId.reflex, .reflexRsp, .probe, .probeRsp] := by
      cases hid <;> simp
    rw [hs.caps]
    exact (hasProp_loadCaps items 0 id).mpr (Or.inr (hitems id hfour))
  exact along_of_invariant henabled
    (fun s op s' hs => licensed_routeExec w hs (henabled s op hs))
    (licensed_init (some items) myid nodeSpace bucketSz node) ops

end Operations

/-! ## A restricted configuration -/

/-- The tuple of `vdht_lite.conf`. -/
def liteProtocol : List VcfgItem :=
  ["ping", "find_node", "find_closest_nodes", "reflex", "probe", "probe_rsp"].map fun name =>
    .str 2 (cstr name)

/-- A route that was started from a configuration, with empty spaces, for concrete runs. -/
def configuredExample (tuple : Option (List VcfgItem)) : Vroute :=
  configuredRoute tuple (Block.ofList VTOKEN_LEN [1])
    (nodeSpaceInit zeroAddr.addr 8 10 (Block.ofList VTOKEN_LEN [1]) (Block.zero VTOKEN_LEN)) 8
    ⟨oneAddrNode (Block.ofList VTOKEN_LEN [1]), false, none⟩

/-- A `reflex` query of another node. -/
def aReflexQuery : List UInt8 :=
  match encReflex (countingWorld.nonce 0) (Block.ofList VTOKEN_LEN [9]) vdhtBufLen with
  | .ok (some out) => out
  | _ => []

/-- The tuple with the kind that it leaves out. -/
def wholeProtocol : List VcfgItem := liteProtocol ++ [.str 2 (cstr "reflex_rsp")]

/-- A node joins and is pinged, and the address of another node is reflected. -/
def reflectingOps : List RouteOp :=
  [.joinNode (Block.ofList VTOKEN_LEN [9]) zeroAddr.addr 1, .tick (fun _ => 0) 5,
    .recv (anArrival 6) aReflexQuery aReflexQuery.length]

theorem pushed_enabled_listed :
    ∃ s, run (routeExec countingWorld) (configuredExample (some wholeProtocol)) reflectingOps =
        .ok s ∧
      s.log.filterMap pushedId = [.ping, .reflexRsp] ∧
      ∀ id conn nonce msg, .pushed id conn nonce msg ∈ s.log → hasProp s.props id = true := by
  have hlog : (run (routeExec countingWorld) (configuredExample (some wholeProtocol))
      reflectingOps).toOption.map (fun s => s.log.filterMap pushedId) =
        some [.ping, .reflexRsp] := by decide +kernel
  cases h : run (routeExec countingWorld) (configuredExample (some wholeProtocol)) reflectingOps with
  | error e =>
    rw [h] at hlog
    cases hlog
  | ok s =>
    rw [h] at hlog
    injection hlog with hlog
    have hops : Along (routeExec countingWorld) SendsEnabled
        (configuredExample (some wholeProtocol)) reflectingOps :=
      sendsEnabled_of_listed countingWorld (by decide) _ _ _ _ _
    exact ⟨s, rfl, hlog, (pushed_enabled countingWorld _ _ _ _ _ hops h).1⟩

/-- A node that is configured by `vdht_lite.conf` sends a `reflex_rsp`. -/
theorem lite_sends_reflexRsp :
    ∃ s, run (routeExec countingWorld) (configuredExample (some liteProtocol))
        [.recv (anArrival 1) aReflexQuery aReflexQuery.length] = .ok s ∧
      ∃ conn nonce msg, .pushed .reflexRsp conn nonce msg ∈ s.log ∧
        hasProp s.props .reflexRsp = false := by
  have hlog : (run (routeExec countingWorld) (configuredExample (some liteProtocol))
      [.recv (anArrival 1) aReflexQuery aReflexQuery.length]).toOption.map
      (fun s => (s.log.filterMap pushedId, hasProp s.props .reflexRsp)) =
        some ([.reflexRsp], false) := by decide +kernel
  cases h : run (routeExec countingWorld) (configuredExample (some liteProtocol))
      [.recv (anArrival 1) aReflexQuery aReflexQuery.length] with
  | error e =>
    rw [h] at hlog
    cases hlog
  | ok s =>
    rw [h] at hlog
    injection hlog with hlog
    obtain ⟨hkinds, hcap⟩ := Prod.mk.inj hlog
    have hmem : DhtId.reflexRsp ∈ s.log.filterMap pushedId := hkinds ▸ List.mem_singleton_self _
    obtain ⟨e, he, hid⟩ := List.mem_filterMap.mp hmem
    cases e with
    | pushed id conn nonce msg =>
      cases hid
      exact ⟨s, rfl, conn, nonce, msg, he, hcap⟩
    | accepted | reaped | nodePassed | srvcPassed | shown => cases hid

end Vdht.Route
