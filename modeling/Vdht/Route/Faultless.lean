import Vdht.Route.BestService
import Vdht.Route.Effects
import Vdht.Route.Origins
import Vdht.Route.TicketRun

/-!
# Operations that do not fault

No handler checks what it reads from a message, so a message that no encoder made can fault a node.
A healthy node, however, faults at no message of a healthy node, and at no operation of its user or
its timer, and it stays healthy. Healthy nodes also pass on no addresses but those they have got.
-/

namespace Vdht.Route

open Vdht.Core Dht Lib Node NodeId

/-! ## What a message tells -/

section Messages

variable {K : AddrKey → Prop}

/-- The decoder of the kind finds everything it looks up, and the records are as a table may hold
them. -/
def Says (K : AddrKey → Prop) (ctxt : BeNode) : DhtId → Prop
  | .ping | .reflex | .probeRsp => ∀ n s, ∃ r, decSrc ctxt n s = .ok r
  | .findNode | .findClosestNodes | .probe | .findService =>
    ∀ n s t, ∃ r, decSrcArg "target" ctxt n s (t : Token) = .ok r
  | .reflexRsp => ∀ n s a, ∃ r, decSrcArg "m" ctxt n s (a : Block 20) = .ok r ∧
      K (addrKey (vsockaddrOfBytes r.2.2.data))
  | .pingRsp => ∀ n, ∃ r, decPingRsp ctxt n nodeRelaxBlock = .ok r ∧
      Known K (vnodeInfoOfBytes r.2.data)
  | .findNodeRsp => ∀ n s, ∃ r, decSrcArg "node" ctxt n s nodeRelaxBlock = .ok r ∧
      Known K (vnodeInfoOfBytes r.2.2.data)
  | .findClosestNodesRsp => ∀ n s, ∃ r, decFindClosestNodesRsp ctxt n s [] = .ok r ∧
      ∀ b ∈ r.2.2, Known K (vnodeInfoOfBytes b.data)
  | .postService | .findServiceRsp => ∀ n s, ∃ r,
      decSrcArg "service" ctxt n s srvcRelaxBlock = .ok r ∧
        (vsrvcInfoOfBytes r.2.2.data).Copyable ∧ DistinctAddrs (vsrvcInfoOfBytes r.2.2.data).used

/-- A service record that can be sent and stored. -/
structure Passable (s : VsrvcInfo) : Prop where
  sendable : s.Sendable
  types : ∀ a ∈ s.used, a.type < VSOCKADDR_BUTT
  distinct : DistinctAddrs s.used

/-- The message holds records that can be sent and stored. -/
def Sayable (K : AddrKey → Prop) : DhtMsg → Prop
  | .pingRsp _ _ n | .findNodeRsp _ _ n => n.Sendable ∧ Known K n
  | .findClosestNodesRsp _ _ ns => ns.length ≤ 8 ∧ ∀ n ∈ ns, n.Sendable ∧ Known K n
  | .reflexRsp _ _ a => K (addrKey a)
  | .postService _ _ s | .findServiceRsp _ _ s => Passable s
  | _ => True

theorem mem_of_forall₂ {α β : Type} {R : α → β → Prop} {l : List α} {m : List β}
    (h : List.Forall₂ R l m) : ∀ a ∈ l, ∃ b ∈ m, R a b := by
  induction h with
  | nil => exact fun a ha => absurd ha List.not_mem_nil
  | cons hab _ ih =>
    intro x hx
    rcases List.mem_cons.mp hx with rfl | hx
    · exact ⟨_, List.mem_cons_self, hab⟩
    · obtain ⟨b, hb, hr⟩ := ih x hx
      exact ⟨b, List.mem_cons_of_mem _ hb, hr⟩

theorem known_same {n m : VnodeInfo} (hsame : SameNode n m) (hm : Known K m)
    (hlen : n.addrs.length = MAX_ADDRS.toNat) : Known K n := by
  have hmax := hm.le_max
  have hmaxval : MAX_ADDRS = 12 := rfl
  refine ⟨⟨?_, ?_, ?_⟩, ?_⟩
  · rw [hsame.naddrs]
    exact hm.pos
  · rw [hsame.naddrs]
    exact hmax
  · rw [hsame.naddrs, hlen]
    omega
  · rw [hsame.used]
    exact hm.addrs

theorem known_read {b : Block RELAX_SIZE} {m : VnodeInfo}
    (hsame : SameNode (vnodeInfoOfBytes b.data) m) (hm : Known K m) :
    Known K (vnodeInfoOfBytes b.data) := known_same hsame hm (length_readAddrs _ _)

theorem passable_read {b : Block RELAX_SIZE} {s : VsrvcInfo}
    (hsame : SameSrvc (vsrvcInfoOfBytes b.data) s) (hs : Passable s) :
    (vsrvcInfoOfBytes b.data).Copyable ∧ DistinctAddrs (vsrvcInfoOfBytes b.data).used := by
  have hmax := hs.sendable.naddrs_le
  have hmaxval : MAX_ADDRS = 12 := rfl
  have hlen : (vsrvcInfoOfBytes b.data).addrs.length = MAX_ADDRS.toNat := length_readAddrs _ _
  refine ⟨⟨?_, ?_, ?_⟩, ?_⟩
  · rw [hsame.naddrs]
    exact hmax
  · rw [hsame.naddrs, hlen]
    omega
  · rw [hsame.used]
    exact hs.types
  · rw [hsame.used]
    exact hs.distinct

theorem delivers_weaken {written : Res (Option (List UInt8))} {id : DhtId}
    {read read' : BeNode → Prop} (h : Dht.Delivers written id read) (hread : ∀ c, read c → read' c) :
    Dht.Delivers written id read' := by
  obtain ⟨out, ctxt, hout, hpos, hlen, hdec, hr⟩ := h
  exact ⟨out, ctxt, hout, hpos, hlen, hdec, hread ctxt hr⟩

theorem says_src {y name : String} {id : DhtId} (hn : Dht.Named y name id) (nonce : Vnonce)
    (srcId : Token) :
    Dht.Delivers (encDht nonce y name [("id", beCreateBuf srcId.data)] vdhtBufLen) id
      fun ctxt => ∀ n s, ∃ r, decSrc ctxt n s = .ok r :=
  delivers_weaken (delivers_src hn) fun _ h n s => ⟨_, h n s⟩

theorem says_target {y name : String} {id : DhtId} (hn : Dht.Named y name id) (nonce : Vnonce)
    (srcId target : Token) :
    Dht.Delivers
      (encDht nonce y name [("id", beCreateBuf srcId.data), ("target", beCreateBuf target.data)]
        vdhtBufLen) id
      fun ctxt => ∀ n s t, ∃ r, decSrcArg "target" ctxt n s (t : Token) = .ok r :=
  delivers_weaken (delivers_target hn target) fun _ h n s t => ⟨_, h n s t⟩

theorem says_service {y name : String} {id : DhtId} (hn : Dht.Named y name id) (nonce : Vnonce)
    (srcId : Token) {s : VsrvcInfo} (hs : Passable s) :
    Dht.Delivers
      (encDht nonce y name [("id", beCreateBuf srcId.data), ("service", srvcRecord s)]
        vdhtBufLen) id
      fun ctxt => ∀ n t, ∃ r, decSrcArg "service" ctxt n t srvcRelaxBlock = .ok r ∧
        (vsrvcInfoOfBytes r.2.2.data).Copyable ∧
          DistinctAddrs (vsrvcInfoOfBytes r.2.2.data).used := by
  refine delivers_weaken (delivers_service hn hs.sendable) fun _ h n t => ?_
  obtain ⟨r, hr, hsame⟩ := h n t srvcRelaxBlock
  exact ⟨_, hr, passable_read hsame hs⟩

theorem delivers_reflexRsp (nonce : Vnonce) (srcId : Token) (a : VsockaddrIn) :
    Dht.Delivers (encReflexRsp nonce srcId a vdhtBufLen) .reflexRsp fun ctxt =>
      ∀ n s (b : Block 20), ∃ b', decSrcArg "m" ctxt n s b = .ok (nonce, srcId, b') ∧
        vsockaddrOfBytes b'.data = a := by
  have hlen := length_vsockaddrBytes a
  exact delivers_bytes "m" (fun s => vsockaddrOfBytes s = a)
    (named_rsp .reflexRsp "reflex" (by decide)) (beCreateBuf_ok (by omega) (by omega))
    (by decide) (by decide) (by omega) (by decide) (vsockaddrOfBytes_append a)

/-- A message with good records is written, and tells them. -/
theorem delivers_says {msg : DhtMsg} (h : Sayable K msg) :
    Dht.Delivers msg.encode msg.id fun ctxt => Says K ctxt msg.id := by
  cases msg with
  | ping nonce srcId => exact says_src (named_query .ping "ping" (by decide)) nonce srcId
  | pingRsp nonce srcId n =>
    refine delivers_weaken (delivers_pingRsp h.1) fun _ hread k => ?_
    obtain ⟨r, hr, hsame⟩ := hread k nodeRelaxBlock
    exact ⟨_, hr, known_read hsame h.2⟩
  | findNode nonce srcId target =>
    exact says_target (named_query .findNode "find_node" (by decide)) nonce srcId target
  | findNodeRsp nonce srcId n =>
    refine delivers_weaken (delivers_node (named_rsp .findNodeRsp "find_node" (by decide)) h.1)
      fun _ hread k s => ?_
    obtain ⟨r, hr, hsame⟩ := hread k s nodeRelaxBlock
    exact ⟨_, hr, known_read hsame h.2⟩
  | findClosestNodes nonce srcId target =>
    exact says_target (named_query .findClosestNodes "find_closest_nodes" (by decide)) nonce srcId
      target
  | findClosestNodesRsp nonce srcId ns =>
    refine delivers_weaken (delivers_closest h.1 fun n hn => (h.2 n hn).1) fun _ hread k s => ?_
    obtain ⟨rs, hr, hall⟩ := hread k s
    refine ⟨_, hr, fun b hb => ?_⟩
    obtain ⟨n, hn, hsame⟩ := mem_of_forall₂ hall b hb
    exact known_read hsame (h.2 n hn).2
  | reflex nonce srcId => exact says_src (named_query .reflex "reflex" (by decide)) nonce srcId
  | reflexRsp nonce srcId a =>
    refine delivers_weaken (delivers_reflexRsp nonce srcId a) fun _ hread k s b => ?_
    obtain ⟨r, hr, rfl⟩ := hread k s b
    exact ⟨_, hr, h⟩
  | probe nonce srcId target =>
    exact says_target (named_query .probe "probe" (by decide)) nonce srcId target
  | probeRsp nonce srcId => exact says_src (named_rsp .probeRsp "probe" (by decide)) nonce srcId
  | postService nonce srcId s =>
    exact says_service (named_query .postService "post_service" (by decide)) nonce srcId h
  | findService nonce srcId target =>
    exact says_target (named_query .findService "find_service" (by decide)) nonce srcId target
  | findServiceRsp nonce srcId s =>
    exact says_service (named_rsp .findServiceRsp "find_service" (by decide)) nonce srcId h

theorem sayable_written {msg : DhtMsg} (h : Sayable K msg) :
    ∃ out ctxt, msg.encode = .ok (some out) ∧ Labelled out msg.id msg.nonce ctxt ∧
      Says K ctxt msg.id := by
  have hdelivers := delivers_says h
  have hwritten := hdelivers
  obtain ⟨out, -, hout, -⟩ := hwritten
  obtain ⟨ctxt, hlabel⟩ := DhtMsg.labelled hout
  exact ⟨out, ctxt, hout, hlabel, hdelivers.opened hout hlabel.opens⟩

/-- The bytes of a message that can be said, and what they were pushed as. -/
structure Uttered (K : AddrKey → Prop) (d : DhtMsg) (id : DhtId) (nonce : Vnonce)
    (msg : List UInt8) : Prop where
  sayable : Sayable K d
  written : d.encode = .ok (some msg)
  id_eq : d.id = id
  nonce_eq : d.nonce = nonce

theorem Uttered.told {d : DhtMsg} {id : DhtId} {nonce : Vnonce} {msg : List UInt8}
    (h : Uttered K d id nonce msg) : ∃ ctxt, Labelled msg id nonce ctxt ∧ Says K ctxt id := by
  obtain ⟨out, ctxt, hout, hlabel, htold⟩ := sayable_written h.sayable
  obtain rfl := Option.some.inj (Except.ok.inj (hout.symm.trans h.written))
  rw [h.id_eq, h.nonce_eq] at hlabel
  rw [h.id_eq] at htold
  exact ⟨ctxt, hlabel, htold⟩

end Messages

/-! ## Healthy nodes -/

/-- What a node needs that gets no other messages than those of its like. -/
structure Healthy (K : AddrKey → Prop) (s : Vroute) : Prop where
  nodes : s.node_space.Sourced K
  services : ∀ i, ∀ t ∈ s.srvc_space.bucket i, InOrder t.srvci
  own : s.node.nodei.Sound
  own_pos : 1 ≤ s.node.nodei.naddrs
  own_addrs : AddrsIn K s.node.nodei.used
  sent : ∀ id conn nonce msg, .pushed id conn nonce msg ∈ s.log → ∃ d, Uttered K d id nonce msg

section Steps

variable {K : AddrKey → Prop} (w : World)

theorem Healthy.grown {s s' : Vroute} (h : Healthy K s) (hspace : s'.node_space.Sourced K)
    (hsrvc : s'.srvc_space = s.srvc_space) (hnode : s'.node = s.node) {L : List RouteEvent}
    (hlog : s'.log = s.log ++ L) (hL : ∀ e ∈ L, ∀ id conn nonce msg, e ≠ .pushed id conn nonce msg) :
    Healthy K s' where
  nodes := hspace
  services := hsrvc ▸ h.services
  own := hnode ▸ h.own
  own_pos := hnode ▸ h.own_pos
  own_addrs := hnode ▸ h.own_addrs
  sent := by
    intro id conn nonce msg hmem
    rcases List.mem_append.mp (hlog ▸ hmem) with hmem | hmem
    · exact h.sent id conn nonce msg hmem
    · exact absurd rfl (hL _ hmem id conn nonce msg)

theorem Healthy.sendable {s : Vroute} (h : Healthy K s) :
    s.node.nodei.Sendable ∧ Known K s.node.nodei := by
  have hslots := h.own.slots
  have hle := h.own.naddrs_le
  have hcap := h.own.capc_le
  have hnonneg := h.own.capc_nonneg
  have hmaxval : MAX_ADDRS = 12 := rfl
  exact ⟨⟨h.own.naddrs_nonneg, h.own.naddrs_le_max, by omega, by omega, by omega⟩,
    ⟨h.own_pos, h.own.naddrs_le_max, by omega⟩, h.own_addrs⟩

theorem Healthy.pushed {s s' : Vroute} (h : Healthy K s) {msg : DhtMsg} (hmsg : Sayable K msg)
    {conn : VnodeConn} {out : List UInt8} (hout : msg.encode = .ok (some out))
    (hnodes : s'.node_space = s.node_space) (hsrvc : s'.srvc_space = s.srvc_space)
    (hnode : s'.node = s.node) (hlog : s'.log = s.log ++ [.pushed msg.id conn msg.nonce out]) :
    Healthy K s' where
  nodes := hnodes ▸ h.nodes
  services := hsrvc ▸ h.services
  own := hnode ▸ h.own
  own_pos := hnode ▸ h.own_pos
  own_addrs := hnode ▸ h.own_addrs
  sent := by
    intro id conn' nonce bytes hmem
    rcases List.mem_append.mp (hlog ▸ hmem) with hmem | hmem
    · exact h.sent id conn' nonce bytes hmem
    · cases List.mem_singleton.mp hmem
      exact ⟨msg, hmsg, hout, rfl, rfl⟩

/-! ## Sending -/

/-- A good message is pushed, or the queue refuses it. -/
theorem sendMsg_healthy {s : Vroute} (h : Healthy K s) {msg : DhtMsg} (hmsg : Sayable K msg)
    (conn : VnodeConn) :
    ∃ pushed s', sendMsg w msg.id conn msg.nonce msg.encode s = .ok pushed s' ∧ Healthy K s' := by
  obtain ⟨out, ctxt, hout, -⟩ := sayable_written hmsg
  rcases sendMsg_pushes w msg.id conn msg.nonce msg.encode s with ⟨e, hs⟩ | hs | ⟨out', hout', hs⟩
  · unfold sendMsg at hs
    rw [hout] at hs
    dsimp only at hs
    split at hs
    · cases hs
    · cases hs
  · exact ⟨_, _, hs, h.grown h.nodes rfl rfl (List.append_nil _).symm fun _ he =>
      absurd he List.not_mem_nil⟩
  · exact ⟨_, _, hs, h.pushed hmsg hout' rfl rfl rfl rfl⟩

theorem healthy_addTickets (now : Int) (infos : List TicketInfo) :
    Succeeds (Healthy K) (addTickets now infos) := fun _ hs =>
  ⟨_, _, rfl, hs.grown hs.nodes rfl rfl (List.append_nil _).symm fun _ he =>
    absurd he List.not_mem_nil⟩

theorem healthy_sendQuery {c : DhtCall} (hc : ∀ nonce myid, Sayable K (c.message nonce myid))
    {enc : Vnonce → Token → Int → Res (Option (List UInt8))}
    (henc : ∀ nonce myid, enc nonce myid vdhtBufLen = (c.message nonce myid).encode) (now : Int) :
    Succeeds (Healthy K) (sendQuery w c.id c.conn enc c.tickets now) := by
  refine succeeds_get_bind fun s hs => ?_
  obtain ⟨pushed, s', hsend, hs'⟩ :=
    sendMsg_healthy w hs (hc (w.nonce s.nmsgs) s.myid) c.conn
  rw [DhtCall.message_id, DhtCall.message_nonce] at hsend
  dsimp only
  rw [henc, bind_ok_apply hsend]
  cases pushed with
  | false => exact ⟨_, _, rfl, hs'⟩
  | true => exact succeeds_bind (healthy_addTickets now _) (fun _ => succeeds_pure _) s' hs'

theorem sendRsp_healthy {s : Vroute} (h : Healthy K s) {d : DhtMsg} (hmsg : Sayable K d)
    {id : DhtId} {nonce : Vnonce} (hid : d.id = id) (hnonce : d.nonce = nonce)
    {enc : Vnonce → Token → Int → Res (Option (List UInt8))}
    (henc : enc nonce s.myid vdhtBufLen = d.encode) (conn : VnodeConn) :
    ∃ r s', sendRsp w id conn nonce enc s = .ok r s' ∧ Healthy K s' := by
  subst hid hnonce
  obtain ⟨pushed, s', hsend, hs'⟩ := sendMsg_healthy w h hmsg conn
  unfold sendRsp
  rw [bind_ok_apply (get_apply s), henc, bind_ok_apply hsend]
  exact ⟨_, _, rfl, hs'⟩

theorem healthy_gated (id : DhtId) {p : RouteM Int} (h : Succeeds (Healthy K) p) :
    Succeeds (Healthy K) (gated id p) := by
  refine succeeds_get_bind fun s hs => ?_
  split
  · exact h s hs
  · exact ⟨_, _, rfl, hs⟩

theorem gated_healthy (id : DhtId) {p : RouteM Int} {s : Vroute} (hs : Healthy K s)
    (h : ∃ r s', p s = .ok r s' ∧ Healthy K s') : ∃ r s', gated id p s = .ok r s' ∧ Healthy K s' := by
  unfold gated
  rw [bind_ok_apply (get_apply s)]
  split
  · exact h
  · exact ⟨_, _, rfl, hs⟩

/-- A query, which announces a good service if it announces one. -/
theorem healthy_dhtCall {c : DhtCall} (hc : ∀ conn srvci, c = .postService conn srvci → Passable srvci)
    (now : Int) : Succeeds (Healthy K) (dhtCall w now c) := by
  have hsay : ∀ nonce myid, Sayable K (c.message nonce myid) := by
    intro nonce myid
    cases c with
    | postService conn srvci => exact hc conn srvci rfl
    | ping | findNode | findClosestNodes | reflex | probe | findService => trivial
  cases c with
  | ping conn => exact healthy_gated _ (healthy_sendQuery w hsay (fun _ _ => rfl) now)
  | findNode conn target => exact healthy_gated _ (healthy_sendQuery w hsay (fun _ _ => rfl) now)
  | findClosestNodes conn target =>
    exact healthy_gated _ (healthy_sendQuery w hsay (fun _ _ => rfl) now)
  | reflex conn => exact healthy_sendQuery w hsay (fun _ _ => rfl) now
  | probe conn target =>
    exact @healthy_sendQuery K w (.probe conn target) hsay
      (fun nonce myid => encProbe nonce myid target) (fun _ _ => rfl) now
  | postService conn srvci =>
    exact healthy_gated _ (healthy_sendQuery w hsay (fun _ _ => rfl) now)
  | findService conn hash => exact healthy_gated _ (healthy_sendQuery w hsay (fun _ _ => rfl) now)

theorem healthy_dhtCalls {calls : List DhtCall}
    (h : ∀ conn srvci, .postService conn srvci ∈ calls → Passable srvci) (now : Int) :
    Succeeds (Healthy K) (dhtCalls w now calls) := by
  induction calls with
  | nil => exact succeeds_pure _
  | cons c cs ih =>
    refine succeeds_bind (healthy_dhtCall w ?_ now) fun _ => ?_
    · rintro conn srvci rfl
      exact h conn srvci List.mem_cons_self
    · exact ih fun conn srvci hc => h conn srvci (List.mem_cons_of_mem _ hc)

theorem healthy_dhtCalls_of {calls : List DhtCall} (h : ∀ c ∈ calls, c.id ≠ .postService)
    (now : Int) : Succeeds (Healthy K) (dhtCalls w now calls) :=
  healthy_dhtCalls w (fun conn srvci hc => absurd rfl (h (.postService conn srvci) hc)) now

/-! ## What handlers do -/

theorem Healthy.onSpace {s : Vroute} (h : Healthy K s) {space : NodeSpace}
    (hspace : space.Sourced K) : Healthy K { s with node_space := space } :=
  h.grown hspace rfl rfl (List.append_nil _).symm fun _ he => absurd he List.not_mem_nil

theorem healthy_kick (fromId : Token) (now : Int) : Succeeds (Healthy K) (kick fromId now) := by
  intro s hs
  obtain ⟨space, hexec, hspace⟩ := hs.nodes.exec (o := (now, .kickNode fromId)) trivial
  cases hexec
  exact ⟨_, _, rfl, hs.onSpace hspace⟩

theorem healthy_storeNode {n : VnodeInfo} (hn : Known K n) (flag : AddFlag) (now : Int) :
    Succeeds (Healthy K) (storeNode n flag now) := by
  intro s hs
  obtain ⟨space, hexec, hspace⟩ := hs.nodes.exec (o := (now, .addNode n flag)) hn
  replace hexec : addNode s.node_space n flag now = .ok space := hexec
  unfold storeNode
  rw [hexec]
  exact ⟨_, _, rfl, hs.onSpace hspace⟩

/-- Noting something other than a message. -/
theorem healthy_emit {events : List RouteEvent}
    (h : ∀ e ∈ events, ∀ id conn nonce msg, e ≠ .pushed id conn nonce msg) :
    Succeeds (Healthy K) (emit events) := fun _ hs => ⟨_, _, rfl, hs.grown hs.nodes rfl rfl rfl h⟩

theorem healthy_note {e : RouteEvent} (h : ∀ id conn nonce msg, e ≠ .pushed id conn nonce msg) :
    Succeeds (Healthy K) (emit [e]) :=
  healthy_emit fun _ he => List.mem_singleton.mp he ▸ h

theorem healthy_passNode {n : VnodeInfo} (hn : Known K n) (leaf : Option BeNode) (flag : AddFlag)
    (now : Int) : Succeeds (Healthy K) (passNode leaf n flag now) :=
  succeeds_bind (healthy_note fun _ _ _ _ => RouteEvent.noConfusion) fun _ =>
    healthy_storeNode hn flag now

theorem healthy_passNodes {l : List (Option BeNode × VnodeInfo)} (h : ∀ x ∈ l, Known K x.2)
    (flag : AddFlag) (now : Int) : Succeeds (Healthy K) (passNodes flag now l) := by
  induction l with
  | nil => exact succeeds_pure _
  | cons x l ih =>
    refine succeeds_bind (healthy_passNode (h x List.mem_cons_self) x.1 flag now) fun _ => ?_
    exact ih fun y hy => h y (List.mem_cons_of_mem _ hy)

theorem healthy_passService {srvci : VsrvcInfo} (hs : srvci.Copyable)
    (hd : DistinctAddrs srvci.used) (leaf : Option BeNode) (now : Int) :
    Succeeds (Healthy K) (passService leaf srvci now) := by
  refine succeeds_bind (healthy_note fun _ _ _ _ => RouteEvent.noConfusion) fun _ => ?_
  intro s h
  obtain ⟨space, hadd, hspace⟩ := addService_holds (fun t ht => ht.sound.toFitting)
    (fun dest hdest => copy_inOrder hdest hs hd) h.services now
  unfold storeService
  rw [hadd]
  exact ⟨_, _, rfl, ⟨h.nodes, hspace, h.own, h.own_pos, h.own_addrs, h.sent⟩⟩

theorem vticketPunch_ok {arg : TicketArg} (harg : arg.Stored) (space : NodeSpace)
    (info : TicketInfo) : ∃ r, vticketPunch space info arg = .ok r := by
  unfold vticketPunch
  split
  · exact ⟨_, rfl⟩
  · rename_i srvci
    have hstored : srvci.naddrs ≤ srvci.addrs.length := harg
    have hshow : showAddrs srvci.toAddrBlock = .ok srvci.used := by
      unfold showAddrs
      rw [if_neg (by omega)]
    split
    · rw [hshow]
      exact ⟨_, rfl⟩
    · exact ⟨_, rfl⟩
  · exact ⟨_, rfl⟩
  · exact ⟨_, rfl⟩

theorem checkTicket_ok {arg : TicketArg} (harg : arg.Stored) (tickets : List Ticket)
    (space : NodeSpace) : ∃ r, checkTicket arg tickets space = .ok r := by
  induction tickets generalizing space with
  | nil => exact ⟨_, rfl⟩
  | cons t tickets ih =>
    obtain ⟨p, hp⟩ := vticketPunch_ok harg space t.info
    unfold checkTicket
    rw [hp]
    cases p with
    | none =>
      obtain ⟨r, hr⟩ := ih space
      dsimp only
      rw [hr]
      exact ⟨_, rfl⟩
    | some q =>
      obtain ⟨r, hr⟩ := ih q.1
      dsimp only
      rw [hr]
      split
      · exact ⟨_, rfl⟩
      · exact ⟨_, rfl⟩

theorem sourced_adjusted {space s : NodeSpace} (h : space.Sourced K) {adjust : List (Int × SpaceOp)}
    (hadjust : ∀ o ∈ adjust, ∃ id conn, o.2 = .adjustConnectivity id conn)
    (hrun : run spaceExec space adjust = .ok s) : s.Sourced K := by
  obtain ⟨t, hrun', ht⟩ := run_total (P := fun o : Int × SpaceOp => o.2.Brings K)
    (fun _ _ hI hop => NodeSpace.Sourced.exec hI hop) h (fun o ho => by
      obtain ⟨id, conn, heq⟩ := hadjust o ho
      rw [heq]
      trivial)
  rw [hrun] at hrun'
  cases hrun'
  exact ht

theorem healthy_checkTickets {arg : TicketArg} (harg : arg.Stored) :
    Succeeds (Healthy K) (checkTickets arg) := by
  intro s hs
  obtain ⟨r, hr⟩ := checkTicket_ok harg s.tickets s.node_space
  obtain ⟨adjust, hrun, hadjust⟩ := checkTicket_space hr
  unfold checkTickets
  rw [hr]
  refine ⟨_, _, rfl, hs.grown (sourced_adjusted hs.nodes hadjust hrun) rfl rfl rfl ?_⟩
  intro e he id conn nonce msg heq
  obtain ⟨call, -, rfl⟩ := List.mem_map.mp he
  cases heq

theorem healthy_withToken (nonce : Vnonce) {rest : RouteM Int} (h : Succeeds (Healthy K) rest) :
    Succeeds (Healthy K) (withToken nonce rest) := by
  refine succeeds_bind (healthy_checkTickets trivial) fun found => ?_
  split
  · exact succeeds_bind (healthy_note fun _ _ _ _ => RouteEvent.noConfusion) fun _ => h
  · exact succeeds_pure _

theorem fakeNode_known {addr : SockaddrIn} (ha : K addr.key) (id : Token) :
    ∃ n, fakeNode id addr = .ok n ∧ Known K n := by
  obtain ⟨n, hok, -, hwf⟩ := fakeNode_ok id addr
  refine ⟨n, hok, hwf, ?_⟩
  have hsound : vnodeInfoRelax.Sound := ⟨fitting_relax, by decide, by decide⟩
  have hrelax : vnodeInfoRelaxInit vnodeInfoRelax id vnodeVerUnknown 0 =
      .ok ⟨vnodeInfoRelax.toAddrBlock, id, vnodeVerUnknown, 0⟩ := rfl
  unfold fakeNode at hok
  rw [hrelax] at hok
  dsimp only at hok
  unfold vnodeInfoAddAddr at hok
  split at hok
  · cases hok
  · rename_i n' r hadd
    cases hok
    split at hadd
    · cases hadd
    · rename_i b r' hb
      cases hadd
      exact addrsIn_addAddr hsound (fun a ha => absurd ha List.not_mem_nil) ha hb

theorem healthy_welcome {addr : SockaddrIn} (ha : K addr.key) (known : Bool) (freshId : Token)
    (now : Int) : Succeeds (Healthy K) (welcome known freshId addr now) := by
  unfold welcome
  split
  · exact succeeds_pure _
  · obtain ⟨n, hok, hn⟩ := fakeNode_known ha freshId
    exact succeeds_lift_bind hok (healthy_storeNode hn .byOther now)

theorem healthy_reflexNode (laddr : SockaddrIn) {eaddr : VsockaddrIn} (ha : K (addrKey eaddr)) :
    Succeeds (Healthy K) (reflexNode laddr eaddr) := by
  intro s hs
  obtain ⟨n, hok, hn, hused⟩ := vnodeReflexAddr_eq hs.own laddr eaddr
  have hlen : s.node.nodei.used.length ≤ n.used.length := by
    rw [hused, reflexAddrs]
    split
    · exact Nat.le_refl _
    · rw [List.length_modify]
      exact length_withReported _ _
  have hbefore := hs.own.length_used
  have hafter := hn.length_used
  have hpos := hs.own_pos
  unfold reflexNode
  rw [hok]
  refine ⟨_, _, rfl, ⟨hs.nodes, hs.services, hn, ?_, ?_, hs.sent⟩⟩
  · show 1 ≤ n.naddrs
    omega
  · show AddrsIn K n.used
    rw [hused]
    exact addrsIn_reflexAddrs laddr hs.own_addrs ha

/-! ## What handlers look up -/

/-- What the record of the caller holds after a bucket. -/
theorem pickService_mem {P : VsrvcInfo → Prop} (hash : Token) {ss : List Vservice}
    (h : ∀ t ∈ ss, P t.srvci) {dest : Option VsrvcInfo} (hdest : ∀ s ∈ dest, P s) (minNice : Int) :
    ∀ s ∈ (pickService hash ss dest minNice).1, P s := by
  induction ss generalizing dest minNice with
  | nil => exact hdest
  | cons t ss ih =>
    have htail := fun u hu => h u (List.mem_cons_of_mem t hu)
    rw [pickService]
    split
    · refine ih htail (fun s hs => ?_) _
      cases hs
      exact h t List.mem_cons_self
    · exact ih htail hdest _

theorem getServiceLoop_copies {P : VsrvcInfo → Prop} {space : SrvcSpace} {hash : Token}
    (hcopy : ∀ dest s : VsrvcInfo, dest.Fitting → P s →
      ∃ d, vsrvcInfoCopy dest s = .ok (d, 0) ∧ d.Fitting ∧ SameService d s)
    (h : ∀ i, ∀ t ∈ space.bucket i, P t.srvci) (is : List (Fin NBUCKETS)) {dest : Option VsrvcInfo}
    (hdest : ∀ s ∈ dest, P s) (minNice : Int) {srvci d : VsrvcInfo} {found found' : Bool}
    (hfit : srvci.Fitting) (hfound : found = true → ∃ s, P s ∧ SameService srvci s)
    (hget : getServiceLoop space hash is dest minNice srvci found = .ok (d, found')) :
    d.Fitting ∧ (found' = true → ∃ s, P s ∧ SameService d s) := by
  induction is generalizing dest minNice srvci found with
  | nil =>
    cases hget
    exact ⟨hfit, hfound⟩
  | cons i is ih =>
    have hpick := pickService_mem hash (h i) hdest minNice
    rw [getServiceLoop] at hget
    split at hget
    · exact ih (fun s hs => by cases hs) _ hfit hfound hget
    · rename_i best m heq
      have hbest : P best := hpick best (by rw [heq]; rfl)
      obtain ⟨e, hok, hefit, hsame⟩ := hcopy srvci best hfit hbest
      rw [hok] at hget
      refine ih (fun s hs => ?_) _ hefit (fun _ => ⟨best, hbest, hsame⟩) hget
      cases hs
      exact hbest

theorem passable_copy {s d : VsrvcInfo} (hs : InOrder s) (hsame : SameService d s)
    (hd : d.Fitting) : Passable d := by
  have hlen := hs.sound.length_used
  have hnonneg := hs.sound.naddrs_nonneg
  have hmax := hs.sound.naddrs_le_max
  have hcapc := hd.capc_le
  have hpos := hd.capc_nonneg
  have hmaxval : MAX_ADDRS = 12 := rfl
  have htypes := hs.types
  have hdis := hs.distinct
  rw [← hsame.addrs] at hlen htypes hdis
  rw [← hsame.naddrs] at hlen hnonneg hmax
  have htake : d.used.length ≤ d.addrs.length := by
    rw [AddrBlock.used, List.length_take]
    exact Nat.min_le_right _ _
  exact ⟨⟨hnonneg, hmax, by omega, by omega, by omega⟩, htypes, hdis⟩

/-- A service that is found is a copy of one in the table, and can be sent. -/
theorem getService_stored {space : SrvcSpace} (h : ∀ i, ∀ t ∈ space.bucket i, InOrder t.srvci)
    (hash : Token) :
    ∃ d found, getService space hash vsrvcInfoRelax = .ok (d, found) ∧
      (found = true → Passable d ∧ ∃ i, ∃ t ∈ space.bucket i, SameService d t.srvci) := by
  obtain ⟨d, found, hget, -⟩ := @getService_reports space hash (fun i t ht => (h i t ht).toKept) _
    fitting_vsrvcInfoRelax
  refine ⟨d, found, hget, fun hfound => ?_⟩
  have hcopies := getServiceLoop_copies
    (P := fun s => InOrder s ∧ ∃ i, ∃ t ∈ space.bucket i, t.srvci = s)
    (fun _ _ hdest hs => hs.1.copy hdest) (fun i t ht => ⟨h i t ht, i, t, ht, rfl⟩) _
    (fun s hs => by cases hs) _ fitting_vsrvcInfoRelax (fun hf => by cases hf) hget
  obtain ⟨s, ⟨hs, i, t, ht, rfl⟩, hsame⟩ := hcopies.2 hfound
  exact ⟨passable_copy hs hsame hcopies.1, i, t, ht, hsame⟩

theorem sendable_dropped {space : NodeSpace} {d : VnodeInfo} (hd : d.Sound) :
    (dropWeight space d).Sendable := by
  have hslots := hd.slots
  have hle := hd.naddrs_le
  have hcap := hd.capc_le
  have hnonneg := hd.capc_nonneg
  have hmaxval : MAX_ADDRS = 12 := rfl
  have hdrop : (dropWeight space d).toAddrBlock = d.toAddrBlock := by
    unfold dropWeight
    split <;> rfl
  rw [hdrop]
  exact ⟨hd.naddrs_nonneg, hd.naddrs_le_max, by omega, by omega, by omega⟩

theorem findNode_known {space : NodeSpace} (h : space.Sourced K) (id : Token) :
    ∃ r, findNode space id vnodeInfoRelax = .ok r ∧ ∀ n ∈ r, n.Sendable ∧ Known K n := by
  unfold findNode
  dsimp only
  cases hfind : (space.bucket (vnodeIdBucket space.myid id)).peers.find?
      fun p => vtokenEqual p.nodei.id id with
  | none => exact ⟨none, rfl, fun n hn => by cases hn⟩
  | some p =>
    obtain ⟨d, r, hcopy, hd, hknown⟩ := h.copied (mem_peers_of_bucket (List.mem_of_find?_eq_some hfind))
    dsimp only
    rw [hcopy]
    refine ⟨some (dropWeight space d), rfl, fun n hn => ?_⟩
    cases hn
    exact ⟨sendable_dropped hd, hknown⟩

theorem copyRanked_known {space : NodeSpace} (h : space.Sourced K) {ps : List Vpeer}
    (hps : ∀ p ∈ ps, p ∈ space.peers) (num : Nat) :
    ∃ ns, copyRanked space ps num = .ok ns ∧ ns.length ≤ num ∧
      ∀ n ∈ ns, n.Sendable ∧ Known K n := by
  induction ps generalizing num with
  | nil => exact ⟨[], rfl, Nat.zero_le num, fun n hn => absurd hn List.not_mem_nil⟩
  | cons p ps ih =>
    cases num with
    | zero => exact ⟨[], rfl, Nat.le_refl 0, fun n hn => absurd hn List.not_mem_nil⟩
    | succ num =>
      obtain ⟨d, r, hcopy, hd, hknown⟩ := h.copied (hps p List.mem_cons_self)
      obtain ⟨ns, hns, hlen, hall⟩ := ih (fun q hq => hps q (List.mem_cons_of_mem p hq)) num
      unfold copyRanked
      rw [hcopy]
      dsimp only
      rw [hns]
      refine ⟨_, rfl, Nat.succ_le_succ hlen, fun n hn => ?_⟩
      rcases List.mem_cons.mp hn with rfl | hn
      · exact ⟨sendable_dropped hd, hknown⟩
      · exact hall n hn

theorem findClosestNodes_known {space : NodeSpace} (h : space.Sourced K) (id : Token) :
    ∃ ns, findClosestNodes space id MAX_CAPC = .ok ns ∧ ns.length ≤ 8 ∧
      ∀ n ∈ ns, n.Sendable ∧ Known K n := by
  unfold findClosestNodes
  rw [if_neg (by decide)]
  refine copyRanked_known h (fun p hp => ?_) MAX_CAPC.toNat
  exact List.mem_of_mem_filter ((Utils.rank_perm _).mem_iff.mp hp)

/-! ## Handlers -/

section Handlers

variable {m : Arrival} {ctxt : BeNode}

theorem healthy_cbPing (ha : K m.conn.raddr.key) (h : Says K ctxt .ping) :
    Succeeds (Healthy K) (cbPing w m ctxt) := by
  obtain ⟨r, hdec⟩ := h m.nonce m.fromId
  refine succeeds_lift_bind hdec ?_
  refine succeeds_bind (healthy_kick _ _) fun known => ?_
  refine succeeds_bind (healthy_welcome ha known _ _) fun _ => ?_
  refine succeeds_get_bind fun s hs => ?_
  exact gated_healthy _ hs (sendRsp_healthy w (d := .pingRsp r.1 s.myid s.node.nodei) hs
    hs.sendable rfl rfl rfl m.conn)

theorem healthy_cbPingRsp (h : Says K ctxt .pingRsp) :
    Succeeds (Healthy K) (cbPingRsp m ctxt) := by
  obtain ⟨r, hdec, hn⟩ := h m.nonce
  refine succeeds_lift_bind hdec (healthy_withToken _ ?_)
  exact succeeds_bind (healthy_passNode hn _ _ _) fun _ => succeeds_pure _

theorem healthy_cbFindNode (h : Says K ctxt .findNode) :
    Succeeds (Healthy K) (cbFindNode w m ctxt) := by
  obtain ⟨r, hdec⟩ := h m.nonce m.fromId m.targetId
  refine succeeds_lift_bind hdec (succeeds_bind (healthy_kick _ _) fun _ => ?_)
  refine succeeds_get_bind fun s hs => ?_
  obtain ⟨found, hfind, hgood⟩ := findNode_known hs.nodes r.2.2
  rw [hfind, bind_ok_apply (lift_ok _ s)]
  cases found with
  | none => exact ⟨_, _, rfl, hs⟩
  | some n =>
    exact gated_healthy _ hs (sendRsp_healthy w (d := .findNodeRsp r.1 s.myid n) hs
      (hgood n rfl) rfl rfl rfl m.conn)

theorem healthy_cbFindNodeRsp (h : Says K ctxt .findNodeRsp) :
    Succeeds (Healthy K) (cbFindNodeRsp m ctxt) := by
  obtain ⟨r, hdec, hn⟩ := h m.nonce m.fromId
  refine succeeds_lift_bind hdec (healthy_withToken _ (succeeds_bind (healthy_kick _ _) fun _ => ?_))
  exact succeeds_bind (healthy_passNode hn _ _ _) fun _ => succeeds_pure _

theorem healthy_cbFindClosestNodes (h : Says K ctxt .findClosestNodes) :
    Succeeds (Healthy K) (cbFindClosestNodes w m ctxt) := by
  obtain ⟨r, hdec⟩ := h m.nonce m.fromId m.targetId
  refine succeeds_lift_bind hdec (succeeds_bind (healthy_kick _ _) fun _ => ?_)
  refine succeeds_get_bind fun s hs => ?_
  obtain ⟨ns, hfind, hlen, hgood⟩ := findClosestNodes_known hs.nodes r.2.2
  rw [hfind, bind_ok_apply (lift_ok _ s)]
  cases ns with
  | nil => exact ⟨_, _, rfl, hs⟩
  | cons n ns =>
    exact gated_healthy _ hs (sendRsp_healthy w
      (d := .findClosestNodesRsp r.1 s.myid (n :: ns)) hs ⟨hlen, hgood⟩ rfl rfl rfl m.conn)

theorem healthy_cbFindClosestNodesRsp (h : Says K ctxt .findClosestNodesRsp) :
    Succeeds (Healthy K) (cbFindClosestNodesRsp m ctxt) := by
  obtain ⟨r, hdec, hall⟩ := h m.nonce m.fromId
  refine succeeds_lift_bind hdec (healthy_withToken _ (succeeds_bind (healthy_kick _ _) fun _ => ?_))
  refine succeeds_bind (healthy_passNodes (fun x hx => ?_) _ _) fun _ => succeeds_pure _
  obtain ⟨b, hb, heq⟩ := List.mem_map.mp (List.of_mem_zip hx).2
  rw [← heq]
  exact hall b hb

theorem healthy_cbReflex (ha : K m.conn.raddr.key) (h : Says K ctxt .reflex) :
    Succeeds (Healthy K) (cbReflex w m ctxt) := by
  obtain ⟨r, hdec⟩ := h m.nonce m.fromId
  refine succeeds_lift_bind hdec (succeeds_bind (healthy_kick _ _) fun _ => fun s hs => ?_)
  exact sendRsp_healthy w (d := .reflexRsp r.1 s.myid ⟨m.conn.raddr, _⟩) hs ha rfl rfl rfl m.conn

theorem healthy_cbReflexRsp (h : Says K ctxt .reflexRsp) :
    Succeeds (Healthy K) (cbReflexRsp m ctxt) := by
  obtain ⟨r, hdec, ha⟩ := h m.nonce m.fromId m.addr
  refine succeeds_lift_bind hdec (healthy_withToken _ (succeeds_bind (healthy_kick _ _) fun _ => ?_))
  exact succeeds_bind (healthy_reflexNode _ ha) fun _ => succeeds_pure _

theorem healthy_cbProbe (h : Says K ctxt .probe) : Succeeds (Healthy K) (cbProbe w m ctxt) := by
  obtain ⟨r, hdec⟩ := h m.nonce m.fromId m.targetId
  refine succeeds_lift_bind hdec (succeeds_get_bind fun s hs => ?_)
  split
  · refine succeeds_bind (healthy_kick _ _) (fun _ => fun t ht => ?_) s hs
    exact sendRsp_healthy w (d := .probeRsp r.1 t.myid) ht trivial rfl rfl rfl m.conn
  · exact ⟨_, _, rfl, hs⟩

theorem healthy_cbProbeRsp (h : Says K ctxt .probeRsp) :
    Succeeds (Healthy K) (cbProbeRsp m ctxt) := by
  obtain ⟨r, hdec⟩ := h m.nonce m.fromId
  refine succeeds_lift_bind hdec (healthy_withToken _ (succeeds_bind (healthy_kick _ _) fun _ => ?_))
  exact succeeds_bind (healthy_checkTickets trivial) fun _ => succeeds_pure _

theorem healthy_cbPostService (h : Says K ctxt .postService) :
    Succeeds (Healthy K) (cbPostService m ctxt) := by
  obtain ⟨r, hdec, hcopy, hdis⟩ := h m.nonce m.fromId
  refine succeeds_lift_bind hdec (succeeds_bind (healthy_kick _ _) fun _ => ?_)
  exact succeeds_bind (healthy_passService hcopy hdis _ _) fun _ => succeeds_pure _

theorem healthy_cbFindService (h : Says K ctxt .findService) :
    Succeeds (Healthy K) (cbFindService w m ctxt) := by
  obtain ⟨r, hdec⟩ := h m.nonce m.fromId m.targetId
  refine succeeds_lift_bind hdec (succeeds_bind (healthy_kick _ _) fun _ => ?_)
  refine succeeds_get_bind fun s hs => ?_
  obtain ⟨d, found, hget, hfound⟩ := getService_stored hs.services r.2.2
  rw [hget, bind_ok_apply (lift_ok _ s)]
  cases found with
  | false => exact ⟨_, _, rfl, hs⟩
  | true =>
    exact gated_healthy _ hs (sendRsp_healthy w (d := .findServiceRsp r.1 s.myid d) hs
      (hfound rfl).1 rfl rfl rfl m.conn)

theorem healthy_cbFindServiceRsp (h : Says K ctxt .findServiceRsp) :
    Succeeds (Healthy K) (cbFindServiceRsp w m ctxt) := by
  obtain ⟨r, hdec, hcopy, hdis⟩ := h m.nonce m.fromId
  refine succeeds_lift_bind hdec (healthy_withToken _ (succeeds_bind (healthy_kick _ _) fun _ => ?_))
  refine succeeds_bind (healthy_passService hcopy hdis _ _) fun _ => ?_
  refine succeeds_get_bind fun s hs => ?_
  refine succeeds_bind (healthy_dhtCalls_of w (fun c => calls_probeNode) _) (fun _ => ?_) s hs
  exact succeeds_bind (healthy_checkTickets hcopy.stored) fun _ => succeeds_pure _

theorem healthy_routeCbOps (ha : K m.conn.raddr.key) {id : DhtId} (h : Says K ctxt id) :
    Succeeds (Healthy K) (routeCbOps w m ctxt id) := by
  cases id with
  | ping => exact healthy_cbPing w ha h
  | pingRsp => exact healthy_cbPingRsp h
  | findNode => exact healthy_cbFindNode w h
  | findNodeRsp => exact healthy_cbFindNodeRsp h
  | findClosestNodes => exact healthy_cbFindClosestNodes w h
  | findClosestNodesRsp => exact healthy_cbFindClosestNodesRsp h
  | reflex => exact healthy_cbReflex w ha h
  | reflexRsp => exact healthy_cbReflexRsp h
  | probe => exact healthy_cbProbe w h
  | probeRsp => exact healthy_cbProbeRsp h
  | postService => exact healthy_cbPostService h
  | findService => exact healthy_cbFindService w h
  | findServiceRsp => exact healthy_cbFindServiceRsp w h

end Handlers

/-! ## Operations -/

/-- A message of a healthy node, an address of `K` to join, a service the registry keeps. -/
def Admits (K : AddrKey → Prop) : RouteOp → Prop
  | .recv m buf len =>
    K m.conn.raddr.key ∧ ∃ id ctxt, decBegin buf len = .ok (some (id, ctxt)) ∧ Says K ctxt id
  | .joinNode _ addr _ => K addr.key
  | .airService srvci _ => srvci.Kept
  | _ => True

theorem passable_of_kept {srvci : VsrvcInfo} (h : srvci.Kept) : Passable srvci := by
  have hstored := h.copyable.stored
  have hcapc := h.sound.capc_le
  have hpos := h.sound.capc_nonneg
  have hmaxval : MAX_ADDRS = 12 := rfl
  exact ⟨⟨h.sound.naddrs_nonneg, h.sound.naddrs_le_max, hstored, by omega, by omega⟩, h.types,
    h.distinct⟩

/-- An operation of the node space that adds no node, and its calls. -/
theorem healthy_onNodeSpace (now : Int) {f : NodeSpace → Res (NodeSpace × List DhtCall)}
    (spaceOp : Int × SpaceOp) (hop : spaceOp.2.Brings K)
    (hspace : ∀ space, spaceExec space spaceOp = (f space).map (·.1))
    (hcalls : ∀ space space' calls, f space = .ok (space', calls) →
      ∀ c ∈ calls, c.id ≠ .postService) :
    Succeeds (Healthy K) (onNodeSpace w now f) := by
  refine succeeds_get_bind fun s hs => ?_
  obtain ⟨space, hexec, hsourced⟩ := hs.nodes.exec hop
  rw [hspace] at hexec
  obtain ⟨⟨space', calls⟩, hf, rfl⟩ := map_ok hexec
  rw [hf, bind_ok_apply (lift_ok _ s)]
  dsimp only
  rw [bind_ok_apply (modify_apply _ s)]
  exact healthy_dhtCalls_of w (hcalls _ _ _ hf) now _ (hs.onSpace hsourced)

theorem healthy_reapTickets (now : Int) : Succeeds (Healthy K) (reapTickets now) := by
  intro s hs
  refine ⟨_, _, rfl, hs.grown hs.nodes rfl rfl (List.append_assoc _ _ _) ?_⟩
  intro e he id conn nonce msg heq
  subst heq
  rcases List.mem_append.mp he with he | he
  · obtain ⟨call, -, heq⟩ := List.mem_map.mp he
    cases heq
  · obtain ⟨nonce, -, heq⟩ := List.mem_map.mp he
    cases heq

theorem healthy_vrouteClear : Succeeds (Healthy K) vrouteClear := by
  intro s hs
  obtain ⟨space, hexec, hspace⟩ := hs.nodes.exec (o := (0, .clear)) trivial
  cases hexec
  refine ⟨_, _, rfl, ⟨hspace, fun i t ht => absurd ht List.not_mem_nil, hs.own, hs.own_pos,
    hs.own_addrs, fun id conn nonce msg hmem => ?_⟩⟩
  rcases List.mem_append.mp hmem with hmem | hmem
  · exact hs.sent id conn nonce msg hmem
  · obtain ⟨nonce, -, heq⟩ := List.mem_map.mp hmem
    cases heq

theorem healthy_vrouteFindService (hash : Token) (cookie : Nat) :
    Succeeds (Healthy K) (vrouteFindService hash cookie) := by
  refine succeeds_get_bind fun s hs => ?_
  obtain ⟨d, found, hget, hfound⟩ := getService_stored hs.services hash
  have hnote : ∀ call, Succeeds (Healthy K) (emit [.shown call] >>= fun _ => pure (0 : Int)) :=
    fun call => succeeds_bind (healthy_note fun _ _ _ _ => RouteEvent.noConfusion) fun _ =>
      succeeds_pure _
  rw [hget, bind_ok_apply (lift_ok _ s)]
  cases found with
  | false => exact hnote _ s hs
  | true =>
    have hstored := (hfound rfl).1.sendable.stored
    have hshow : showAddrs d.toAddrBlock = .ok d.used := by
      unfold showAddrs
      rw [if_neg (by omega)]
    exact succeeds_lift_bind hshow (hnote _) s hs

/-- A healthy node takes every operation it admits, without a fault, and stays healthy. -/
theorem healthy_routeOp {op : RouteOp} (h : Admits K op) : Succeeds (Healthy K) (routeOp w op) := by
  cases op with
  | recv m buf len =>
    obtain ⟨ha, id, ctxt, hbegin, htold⟩ := h
    exact succeeds_lift_bind hbegin (healthy_routeCbOps w ha htold)
  | tick rand now =>
    refine succeeds_bind (healthy_onNodeSpace w now (now, .tick rand) trivial (fun _ => rfl)
      fun _ _ _ => calls_nodeSpaceTick) fun _ => ?_
    exact succeeds_bind (healthy_reapTickets now) fun _ => succeeds_pure _
  | joinNode freshId addr now =>
    obtain ⟨n, hok, hn⟩ := fakeNode_known (show K addr.key from h) freshId
    exact succeeds_lift_bind hok (succeeds_bind (healthy_storeNode hn .byOther now) fun _ =>
      succeeds_pure _)
  | findService hash cookie => exact healthy_vrouteFindService hash cookie
  | probeService hash cookie now =>
    refine succeeds_get_bind fun s hs => ?_
    refine succeeds_bind (healthy_dhtCalls_of w (fun _ => calls_probeService) now)
      (fun _ => ?_) s hs
    exact succeeds_bind (healthy_addTickets now _) fun _ => succeeds_pure _
  | airService srvci now =>
    refine succeeds_get_bind fun s hs => ?_
    refine succeeds_bind (healthy_dhtCalls w (fun conn srvci' hc => ?_) now)
      (fun _ => succeeds_pure _) s hs
    exact calls_airService hc ▸ passable_of_kept h
  | reflexAddr addr now =>
    refine succeeds_get_bind fun s hs => ?_
    refine succeeds_bind (healthy_dhtCalls_of w (fun c hc => ?_) now)
      (fun _ => succeeds_pure _) s hs
    exact not_post_of_openCall (openCall_reflexAddr hc).1
  | probeConnectivity laddr now =>
    exact succeeds_bind (healthy_onNodeSpace w now (now, .probeConnectivity laddr) trivial
      (fun _ => rfl) fun _ _ _ => calls_probeConnectivity) fun _ => succeeds_pure _
  | clear => exact succeeds_bind healthy_vrouteClear fun _ => succeeds_pure _

end Steps

end Vdht.Route
