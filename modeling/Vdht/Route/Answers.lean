import Vdht.Route.Faultless

/-!
# What a node answers

A query that is well said is answered by one message, with what the node has, or by none. Whether
the node has what it is asked for is a matter of its tables; whether the answer leaves is a matter
of the queue and of the capabilities.
-/

namespace Vdht.Route

open Vdht.Core Dht Lib Node NodeId

/-! ## Questions and answers -/

/-- The response to a query. -/
def rspOf : DhtId → Option DhtId
  | .ping => some .pingRsp
  | .findNode => some .findNodeRsp
  | .findClosestNodes => some .findClosestNodesRsp
  | .reflex => some .reflexRsp
  | .probe => some .probeRsp
  | .findService => some .findServiceRsp
  | _ => none

/-- The node space when a query is answered: its sender has been noted. -/
def noted (s : Vroute) (srcId : Token) (now : Int) : NodeSpace := (kickNode s.node_space srcId now).1

/-- The node has what it is asked for. -/
def Has (s : Vroute) (now : Int) : DhtMsg → Prop
  | .ping _ _ | .reflex _ _ => True
  | .findNode _ _ targetId => ∃ p ∈ s.node_space.peers, p.nodei.id = targetId
  | .findClosestNodes _ srcId targetId => eligiblePeers (noted s srcId now) targetId ≠ []
  | .probe _ _ destId => destId = s.myid
  | .findService _ _ hash => ∃ t ∈ s.srvc_space.services, t.srvci.hash = hash ∧ t.srvci.nice.toInt < 100
  | _ => False

/-- What a node may answer to a query. -/
inductive AnswerTo (s : Vroute) (m : Arrival) : DhtMsg → DhtMsg → Prop where
  | ping (nonce : Vnonce) (srcId : Token) :
      AnswerTo s m (.ping nonce srcId) (.pingRsp nonce s.myid s.node.nodei)
  | findNode {nonce : Vnonce} {srcId : Token} {p : Vpeer} {n : VnodeInfo}
      (hp : p ∈ s.node_space.peers) (hn : Carries s.node_space p n) :
      AnswerTo s m (.findNode nonce srcId p.nodei.id) (.findNodeRsp nonce s.myid n)
  | findClosestNodes {nonce : Vnonce} {srcId targetId : Token} {ps : List Vpeer}
      {ns : List VnodeInfo} (hps : ClosestPeers (noted s srcId m.now) targetId 8 ps)
      (hns : List.Forall₂ (Carries (noted s srcId m.now)) ps ns) :
      AnswerTo s m (.findClosestNodes nonce srcId targetId) (.findClosestNodesRsp nonce s.myid ns)
  | reflex (nonce : Vnonce) (srcId : Token) :
      AnswerTo s m (.reflex nonce srcId) (.reflexRsp nonce s.myid ⟨m.conn.raddr,
        if vsockaddrIsPrivate m.conn.raddr then VSOCKADDR_UPNP else VSOCKADDR_REFLEXIVE⟩)
  | probe (nonce : Vnonce) (srcId : Token) :
      AnswerTo s m (.probe nonce srcId s.myid) (.probeRsp nonce s.myid)
  | findService {nonce : Vnonce} {srcId : Token} {t : Vservice} {d : VsrvcInfo}
      (ht : t ∈ s.srvc_space.services)
      (hleast : ∀ u ∈ s.srvc_space.services, u.srvci.hash = t.srvci.hash →
        t.srvci.nice.toInt ≤ u.srvci.nice.toInt)
      (hd : SameService d t.srvci) :
      AnswerTo s m (.findService nonce srcId t.srvci.hash) (.findServiceRsp nonce s.myid d)

/-- These kinds are not gated. -/
def isFree : DhtId → Bool
  | .reflex | .reflexRsp | .probe | .probeRsp => true
  | _ => false

/-- The queue takes the next message, and its kind is enabled. -/
def goesOut (w : World) (s : Vroute) (id : DhtId) : Bool :=
  w.push s.nmsgs && (isFree id || hasProp s.props id)

/-- The program ends, and notes these events. -/
def Ends (p : RouteM Int) (s : Vroute) (events : List RouteEvent) : Prop :=
  ∃ r s', p s = .ok r s' ∧ s'.log = s.log ++ events

/-- The program ends, and the message goes out if it can. -/
def Responds (K : AddrKey → Prop) (w : World) (conn : VnodeConn) (d : DhtMsg) (p : RouteM Int)
    (s : Vroute) : Prop :=
  Sayable K d ∧ ∃ out, d.encode = .ok (some out) ∧
    Ends p s (if goesOut w s d.id then [.pushed d.id conn d.nonce out] else [])

/-! ## Programs -/

section Programs

variable {K : AddrKey → Prop} {w : World} {s : Vroute} {p : RouteM Int} {conn : VnodeConn}
  {d : DhtMsg}

theorem ends_pure (r : Int) : Ends (pure r) s [] := ⟨r, s, rfl, (List.append_nil _).symm⟩

/-- A step that changes nothing but the node space. -/
theorem ends_nodes {α : Type} {step : RouteM α} {a : α} {rest : α → RouteM Int}
    {events : List RouteEvent} {t : NodeSpace} (hstep : step s = .ok a { s with node_space := t })
    (hrest : Ends (rest a) { s with node_space := t } events) : Ends (step >>= rest) s events := by
  obtain ⟨r, s', hok, hlog⟩ := hrest
  exact ⟨r, s', (bind_ok_apply hstep rest).trans hok, hlog⟩

theorem responds_nodes {α : Type} {step : RouteM α} {a : α} {rest : α → RouteM Int}
    {t : NodeSpace} (hstep : step s = .ok a { s with node_space := t })
    (hrest : Responds K w conn d (rest a) { s with node_space := t }) :
    Responds K w conn d (step >>= rest) s := by
  obtain ⟨hsay, out, hout, hends⟩ := hrest
  exact ⟨hsay, out, hout, ends_nodes hstep hends⟩

theorem sendRsp_ends {out : List UInt8} (hout : d.encode = .ok (some out))
    {enc : Vnonce → Token → Int → Res (Option (List UInt8))}
    (henc : enc d.nonce s.myid vdhtBufLen = d.encode) :
    Ends (sendRsp w d.id conn d.nonce enc) s
      (if w.push s.nmsgs then [.pushed d.id conn d.nonce out] else []) := by
  unfold sendRsp Ends
  rw [bind_ok_apply (get_apply s), henc, hout]
  by_cases hpush : w.push s.nmsgs = true
  · have hsend : sendMsg w d.id conn d.nonce (.ok (some out)) s = .ok true
        { s with nmsgs := s.nmsgs + 1, log := s.log ++ [.pushed d.id conn d.nonce out] } := if_pos hpush
    rw [bind_ok_apply hsend, if_pos hpush]
    exact ⟨_, _, rfl, rfl⟩
  · have hsend : sendMsg w d.id conn d.nonce (.ok (some out)) s =
        .ok false { s with nmsgs := s.nmsgs + 1 } := if_neg hpush
    rw [bind_ok_apply hsend, if_neg hpush]
    exact ⟨_, _, rfl, (List.append_nil _).symm⟩

/-- The two responses that no capability disables. -/
theorem responds_free (hd : Sayable K d) (hfree : isFree d.id = true)
    {enc : Vnonce → Token → Int → Res (Option (List UInt8))}
    (henc : enc d.nonce s.myid vdhtBufLen = d.encode) :
    Responds K w conn d (sendRsp w d.id conn d.nonce enc) s := by
  obtain ⟨out, -, hout, -⟩ := sayable_written hd
  have hends := @sendRsp_ends w s conn d out hout enc henc
  refine ⟨hd, out, hout, ?_⟩
  rwa [goesOut, hfree, Bool.true_or, Bool.and_true]

theorem responds_gated (hd : Sayable K d) (hfree : isFree d.id = false)
    {enc : Vnonce → Token → Int → Res (Option (List UInt8))}
    (henc : enc d.nonce s.myid vdhtBufLen = d.encode) :
    Responds K w conn d (gated d.id (sendRsp w d.id conn d.nonce enc)) s := by
  obtain ⟨out, -, hout, -⟩ := sayable_written hd
  have hends := @sendRsp_ends w s conn d out hout enc henc
  refine ⟨hd, out, hout, ?_⟩
  rw [goesOut, hfree, Bool.false_or]
  unfold gated Ends
  rw [bind_ok_apply (get_apply s)]
  by_cases hprop : hasProp s.props d.id = true
  · rw [if_pos hprop, hprop, Bool.and_true]
    exact hends
  · rw [if_neg hprop, Bool.eq_false_iff.mpr hprop, Bool.and_false]
    exact ends_pure 0

end Programs

/-! ## Tables -/

section Tables

variable {K : AddrKey → Prop} {space : NodeSpace}

theorem kickNode_records (space : NodeSpace) (id : Token) (now : Int) (i : Fin NBUCKETS) :
    (((kickNode space id now).1.bucket i).peers.map (·.nodei)) =
      (space.bucket i).peers.map (·.nodei) := by
  rw [kickNode, setBucket_bucket]
  split
  · rename_i hi
    rw [hi]
    exact @onPeer_nodeis id (kickPeer space now) (fun _ => rfl) _
  · rfl

/-- A kick changes no record. -/
theorem mem_kicked {id : Token} {now : Int} {p : Vpeer} (hp : p ∈ (kickNode space id now).1.peers) :
    ∃ q ∈ space.peers, q.nodei = p.nodei := by
  obtain ⟨i, hi⟩ := mem_allItems.mp hp
  have hmem : p.nodei ∈ (space.bucket i).peers.map (·.nodei) := by
    rw [← kickNode_records space id now i]
    exact List.mem_map_of_mem hi
  obtain ⟨q, hq, heq⟩ := List.mem_map.mp hmem
  exact ⟨q, mem_peers_of_bucket hq, heq⟩

theorem mem_of_kicked {p : Vpeer} (hp : p ∈ space.peers) (id : Token) (now : Int) :
    ∃ q ∈ (kickNode space id now).1.peers, q.nodei = p.nodei := by
  obtain ⟨i, hi⟩ := mem_allItems.mp hp
  have hmem : p.nodei ∈ ((kickNode space id now).1.bucket i).peers.map (·.nodei) := by
    rw [kickNode_records space id now i]
    exact List.mem_map_of_mem hi
  obtain ⟨q, hq, heq⟩ := List.mem_map.mp hmem
  exact ⟨q, mem_peers_of_bucket hq, heq⟩

/-- A node that is stored is found, and what is found is a copy of its record. -/
theorem findNode_found (h : space.Sourced K) {p : Vpeer} (hp : p ∈ space.peers) :
    ∃ n, findNode space p.nodei.id vnodeInfoRelax = .ok (some n) ∧ n.Sendable ∧ Known K n ∧
      Carries space p n := by
  obtain ⟨d, r, hcopy, hcarries⟩ := @copy_carries space p (h.inv.peerOk hp)
  have hin : p ∈ (space.bucket (vnodeIdBucket space.myid p.nodei.id)).peers := by
    obtain ⟨i, hi⟩ := mem_allItems.mp hp
    rwa [(h.inv i).ok.placed p hi]
  have hfind : ∃ q, (space.bucket (vnodeIdBucket space.myid p.nodei.id)).peers.find?
      (fun q => vtokenEqual q.nodei.id p.nodei.id) = some q :=
    Option.isSome_iff_exists.mp (List.find?_isSome.mpr ⟨p, hin, vtokenEqual_iff.mpr rfl⟩)
  obtain ⟨q, hq⟩ := hfind
  have hid : q.nodei.id = p.nodei.id := by
    have heq := List.find?_some hq
    exact vtokenEqual_iff.mp heq
  have hsame : q = p :=
    peer_eq_of_id h.inv.placed (mem_peers_of_bucket (List.mem_of_find?_eq_some hq)) hp hid
  obtain ⟨found, hok, hgood⟩ := findNode_known h p.nodei.id
  have hsome : findNode space p.nodei.id vnodeInfoRelax = .ok (some (dropWeight space d)) := by
    unfold findNode
    dsimp only
    rw [hq]
    dsimp only
    rw [hsame, hcopy]
  rw [hsome] at hok
  cases hok
  exact ⟨_, hsome, (hgood _ rfl).1, (hgood _ rfl).2, hcarries⟩

theorem findNode_missing {id : Token} (h : ∀ p ∈ space.peers, p.nodei.id ≠ id) (n : VnodeInfo) :
    findNode space id n = .ok none := by
  have hnone : (space.bucket (vnodeIdBucket space.myid id)).peers.find?
      (fun q => vtokenEqual q.nodei.id id) = none := by
    rw [List.find?_eq_none]
    intro p hp heq
    exact h p (mem_peers_of_bucket hp) (vtokenEqual_iff.mp heq)
  unfold findNode
  dsimp only
  rw [hnone]

/-- The records that are sent for the closest nodes. -/
theorem findClosestNodes_carries (h : space.Sourced K) (targetId : Token) :
    ∃ ns ps, findClosestNodes space targetId MAX_CAPC = .ok ns ∧
      (∀ n ∈ ns, n.Sendable ∧ Known K n) ∧ ClosestPeers space targetId 8 ps ∧
      List.Forall₂ (Carries space) ps ns := by
  obtain ⟨infos, ps, hfind, hps, hall⟩ := @findClosestNodes_copies _ h.inv targetId MAX_CAPC
    (by decide)
  obtain ⟨ns, hok, -, hgood⟩ := findClosestNodes_known h targetId
  obtain rfl := Except.ok.inj (hok.symm.trans hfind)
  exact ⟨ns, ps, hok, hgood, hps, hall⟩

/-- The service that is reported, or that there is none below the bound. -/
theorem getService_least {space : SrvcSpace} (h : ∀ i, ∀ t ∈ space.bucket i, InOrder t.srvci)
    (hash : Token) :
    (∃ t ∈ space.services, t.srvci.hash = hash ∧ t.srvci.nice.toInt < 100 ∧
      (∀ u ∈ space.services, u.srvci.hash = hash → t.srvci.nice.toInt ≤ u.srvci.nice.toInt) ∧
      ∃ d, getService space hash vsrvcInfoRelax = .ok (d, true) ∧ Passable d ∧
        SameService d t.srvci) ∨
      (∀ t ∈ space.services, t.srvci.hash = hash → ¬ t.srvci.nice.toInt < 100) ∧
        ∃ d, getService space hash vsrvcInfoRelax = .ok (d, false) := by
  obtain ⟨d, found, hget, hrep⟩ := @getService_reports space hash (fun i t ht => (h i t ht).toKept) _
    fitting_vsrvcInfoRelax
  obtain ⟨d', found', hget', hpass⟩ := getService_stored h hash
  cases hget.symm.trans hget'
  cases hchoice : leastNice (hashServices hash space.services) with
  | none =>
    rw [hchoice] at hrep
    cases hrep
    refine Or.inr ⟨fun t ht hhash => ?_, d, hget⟩
    have hbound := leastBelow_eq_none.mp hchoice t.srvci (mem_hashServices.mpr ⟨⟨t, ht, rfl⟩, hhash⟩)
    exact not_lt_of_ge hbound
  | some best =>
    rw [hchoice] at hrep
    cases hrep with
    | copied hof =>
      obtain ⟨hleast, hbelow⟩ := firstLeast_of_leastBelow hchoice
      obtain ⟨⟨t, ht, rfl⟩, hhash⟩ := mem_hashServices.mp hleast.mem
      obtain ⟨i, hi⟩ := mem_allItems.mp ht
      have hsame := (hof.same_iff (h i t hi).toKept).mpr (h i t hi).sorted
      refine Or.inl ⟨t, ht, hhash, hbelow, fun u hu huhash => ?_, d, hget, (hpass rfl).1, hsame⟩
      exact hleast.le u.srvci (mem_hashServices.mpr ⟨⟨u, hu, rfl⟩, huhash⟩)

end Tables

/-! ## Handlers -/

section Handlers

variable {K : AddrKey → Prop} (w : World) {s : Vroute} {m : Arrival} {ctxt : BeNode}

theorem healthy_noted (hs : Healthy K s) (srcId : Token) (now : Int) :
    Healthy K { s with node_space := noted s srcId now } := by
  obtain ⟨a, s', hok, hs'⟩ := healthy_kick (K := K) srcId now s hs
  cases hok
  exact hs'

theorem kick_apply (srcId : Token) (now : Int) :
    kick srcId now s = .ok (kickNode s.node_space srcId now).2
      { s with node_space := noted s srcId now } := rfl

theorem welcome_apply (hs : Healthy K s) {addr : SockaddrIn} (ha : K addr.key) (known : Bool)
    (freshId : Token) (now : Int) :
    ∃ space, welcome known freshId addr now s = .ok () { s with node_space := space } := by
  unfold welcome
  split
  · exact ⟨s.node_space, rfl⟩
  · obtain ⟨n, hok, hn⟩ := fakeNode_known ha freshId
    obtain ⟨space, hadd, -⟩ := hs.nodes.exec (o := (now, .addNode n .byOther)) hn
    replace hadd : addNode s.node_space n .byOther now = .ok space := hadd
    refine ⟨space, ?_⟩
    rw [hok, bind_ok_apply (lift_ok _ s)]
    unfold storeNode
    rw [hadd]

theorem cbPing_answers (hs : Healthy K s) (ha : K m.conn.raddr.key) {nonce : Vnonce} {srcId : Token}
    (hdec : decPing ctxt m.nonce m.fromId = .ok (nonce, srcId)) :
    Responds K w m.conn (.pingRsp nonce s.myid s.node.nodei) (cbPing w m ctxt) s := by
  obtain ⟨space, hwelcome⟩ := welcome_apply (healthy_noted hs srcId m.now) ha
    (kickNode s.node_space srcId m.now).2 m.freshId m.now
  unfold cbPing
  rw [hdec]
  refine responds_nodes (t := s.node_space) (lift_ok _ s) ?_
  refine responds_nodes (kick_apply srcId m.now) (responds_nodes hwelcome ?_)
  exact responds_gated (K := K) (d := .pingRsp nonce s.myid s.node.nodei) hs.sendable rfl rfl

theorem cbReflex_answers (ha : K m.conn.raddr.key) {nonce : Vnonce} {srcId : Token}
    (hdec : decReflex ctxt m.nonce m.fromId = .ok (nonce, srcId)) :
    Responds K w m.conn (.reflexRsp nonce s.myid ⟨m.conn.raddr,
      if vsockaddrIsPrivate m.conn.raddr then VSOCKADDR_UPNP else VSOCKADDR_REFLEXIVE⟩)
      (cbReflex w m ctxt) s := by
  unfold cbReflex
  rw [hdec]
  refine responds_nodes (t := s.node_space) (lift_ok _ s) ?_
  refine responds_nodes (kick_apply srcId m.now) ?_
  exact responds_free (K := K) (d := .reflexRsp nonce s.myid ⟨m.conn.raddr,
    if vsockaddrIsPrivate m.conn.raddr then VSOCKADDR_UPNP else VSOCKADDR_REFLEXIVE⟩) ha rfl rfl

theorem cbProbe_answers (K : AddrKey → Prop) {nonce : Vnonce} {srcId : Token}
    (hdec : decProbe ctxt m.nonce m.fromId m.targetId = .ok (nonce, srcId, s.myid)) :
    Responds K w m.conn (.probeRsp nonce s.myid) (cbProbe w m ctxt) s := by
  unfold cbProbe
  rw [hdec]
  refine responds_nodes (t := s.node_space) (lift_ok _ s) ?_
  refine responds_nodes (t := s.node_space) (get_apply s) ?_
  rw [if_pos (vtokenEqual_iff.mpr rfl)]
  refine responds_nodes (kick_apply srcId m.now) ?_
  exact responds_free (K := K) (d := .probeRsp nonce s.myid) trivial rfl rfl

theorem cbProbe_silent {nonce : Vnonce} {srcId destId : Token} (hdest : destId ≠ s.myid)
    (hdec : decProbe ctxt m.nonce m.fromId m.targetId = .ok (nonce, srcId, destId)) :
    Ends (cbProbe w m ctxt) s [] := by
  unfold cbProbe
  rw [hdec]
  refine ends_nodes (t := s.node_space) (lift_ok _ s) ?_
  refine ends_nodes (t := s.node_space) (get_apply s) ?_
  rw [if_neg (mt vtokenEqual_iff.mp hdest)]
  exact ends_pure _

theorem carries_noted {srcId : Token} {now : Int} {p q : Vpeer} {n : VnodeInfo}
    (hn : Carries (noted s srcId now) p n) (hpq : q.nodei = p.nodei) :
    Carries s.node_space q n := by
  constructor
  · exact hpq ▸ hn.id
  · exact hpq ▸ hn.ver
  · exact hpq ▸ hn.weight
  · exact hpq ▸ hn.addrs
  · exact hpq ▸ hn.perm
  · exact hpq ▸ hn.same

theorem cbFindNode_answers (hs : Healthy K s) {nonce : Vnonce} {srcId : Token} {p : Vpeer}
    (hp : p ∈ s.node_space.peers)
    (hdec : decFindNode ctxt m.nonce m.fromId m.targetId = .ok (nonce, srcId, p.nodei.id)) :
    ∃ n, Carries s.node_space p n ∧
      Responds K w m.conn (.findNodeRsp nonce s.myid n) (cbFindNode w m ctxt) s := by
  obtain ⟨q, hq, heq⟩ := mem_of_kicked hp srcId m.now
  obtain ⟨n, hfind, hn, hknown, hcarries⟩ := findNode_found (healthy_noted hs srcId m.now).nodes hq
  rw [heq] at hfind
  refine ⟨n, carries_noted hcarries heq.symm, ?_⟩
  unfold cbFindNode
  rw [hdec]
  refine responds_nodes (t := s.node_space) (lift_ok _ s) ?_
  refine responds_nodes (kick_apply srcId m.now) ?_
  refine responds_nodes (t := noted s srcId m.now) (get_apply _) ?_
  rw [hfind]
  refine responds_nodes (t := noted s srcId m.now) (lift_ok _ _) ?_
  exact responds_gated (K := K) (d := .findNodeRsp nonce s.myid n) ⟨hn, hknown⟩ rfl rfl

theorem cbFindNode_silent {nonce : Vnonce} {srcId targetId : Token}
    (hmiss : ∀ p ∈ s.node_space.peers, p.nodei.id ≠ targetId)
    (hdec : decFindNode ctxt m.nonce m.fromId m.targetId = .ok (nonce, srcId, targetId)) :
    Ends (cbFindNode w m ctxt) s [] := by
  have hnone : ∀ p ∈ (noted s srcId m.now).peers, p.nodei.id ≠ targetId := by
    intro p hp
    obtain ⟨q, hq, heq⟩ := mem_kicked hp
    exact heq ▸ hmiss q hq
  unfold cbFindNode
  rw [hdec]
  refine ends_nodes (t := s.node_space) (lift_ok _ s) ?_
  refine ends_nodes (kick_apply srcId m.now) ?_
  refine ends_nodes (t := noted s srcId m.now) (get_apply _) ?_
  rw [findNode_missing hnone]
  refine ends_nodes (t := noted s srcId m.now) (lift_ok _ _) ?_
  exact ends_pure 0

theorem cbFindClosestNodes_answers (hs : Healthy K s) {nonce : Vnonce} {srcId targetId : Token}
    (hdec : decFindClosestNodes ctxt m.nonce m.fromId m.targetId = .ok (nonce, srcId, targetId)) :
    ∃ ns ps, ClosestPeers (noted s srcId m.now) targetId 8 ps ∧
      List.Forall₂ (Carries (noted s srcId m.now)) ps ns ∧
      (ns ≠ [] → Responds K w m.conn (.findClosestNodesRsp nonce s.myid ns) (cbFindClosestNodes w m ctxt) s) ∧
      (ns = [] → Ends (cbFindClosestNodes w m ctxt) s []) := by
  obtain ⟨ns, ps, hfind, hgood, hps, hcarries⟩ :=
    findClosestNodes_carries (healthy_noted hs srcId m.now).nodes targetId
  have hlen := hps.length
  rw [hcarries.length_eq] at hlen
  refine ⟨ns, ps, hps, hcarries, fun hne => ?_, fun hnil => ?_⟩
  · unfold cbFindClosestNodes
    rw [hdec]
    refine responds_nodes (t := s.node_space) (lift_ok _ s) ?_
    refine responds_nodes (kick_apply srcId m.now) ?_
    refine responds_nodes (t := noted s srcId m.now) (get_apply _) ?_
    rw [hfind]
    refine responds_nodes (t := noted s srcId m.now) (lift_ok _ _) ?_
    cases ns with
    | nil => exact absurd rfl hne
    | cons n ns =>
      exact responds_gated (K := K) (d := .findClosestNodesRsp nonce s.myid (n :: ns))
        ⟨hlen ▸ Nat.min_le_left 8 _, hgood⟩ rfl rfl
  · subst hnil
    unfold cbFindClosestNodes
    rw [hdec]
    refine ends_nodes (t := s.node_space) (lift_ok _ s) ?_
    refine ends_nodes (kick_apply srcId m.now) ?_
    refine ends_nodes (t := noted s srcId m.now) (get_apply _) ?_
    rw [hfind]
    refine ends_nodes (t := noted s srcId m.now) (lift_ok _ _) ?_
    exact ends_pure 0

theorem cbFindService_answers (K : AddrKey → Prop) {nonce : Vnonce} {srcId hash : Token} {d : VsrvcInfo} (hd : Passable d)
    (hget : getService s.srvc_space hash vsrvcInfoRelax = .ok (d, true))
    (hdec : decFindService ctxt m.nonce m.fromId m.targetId = .ok (nonce, srcId, hash)) :
    Responds K w m.conn (.findServiceRsp nonce s.myid d) (cbFindService w m ctxt) s := by
  unfold cbFindService
  rw [hdec]
  refine responds_nodes (t := s.node_space) (lift_ok _ s) ?_
  refine responds_nodes (kick_apply srcId m.now) ?_
  refine responds_nodes (t := noted s srcId m.now) (get_apply _) ?_
  rw [hget]
  refine responds_nodes (t := noted s srcId m.now) (lift_ok _ _) ?_
  exact responds_gated (K := K) (d := .findServiceRsp nonce s.myid d) hd rfl rfl

theorem cbFindService_silent {nonce : Vnonce} {srcId hash : Token} {d : VsrvcInfo}
    (hget : getService s.srvc_space hash vsrvcInfoRelax = .ok (d, false))
    (hdec : decFindService ctxt m.nonce m.fromId m.targetId = .ok (nonce, srcId, hash)) :
    Ends (cbFindService w m ctxt) s [] := by
  unfold cbFindService
  rw [hdec]
  refine ends_nodes (t := s.node_space) (lift_ok _ s) ?_
  refine ends_nodes (kick_apply srcId m.now) ?_
  refine ends_nodes (t := noted s srcId m.now) (get_apply _) ?_
  rw [hget]
  refine ends_nodes (t := noted s srcId m.now) (lift_ok _ _) ?_
  exact ends_pure 0

/-- A query gets one answer if the node has what it asks for, and none otherwise. -/
theorem query_answered (hs : Healthy K s) (ha : K m.conn.raddr.key) {q : DhtMsg}
    (hq : (rspOf q.id).isSome) (hread : q.ReadFrom ctxt) :
    (Has s m.now q → ∃ d, AnswerTo s m q d ∧ Responds K w m.conn d (routeCbOps w m ctxt q.id) s) ∧
      (¬ Has s m.now q → Ends (routeCbOps w m ctxt q.id) s []) := by
  cases q with
  | ping nonce srcId =>
    exact ⟨fun _ => ⟨_, .ping nonce srcId, cbPing_answers w hs ha (hread _ _)⟩,
      fun hno => absurd trivial hno⟩
  | reflex nonce srcId =>
    exact ⟨fun _ => ⟨_, .reflex nonce srcId, cbReflex_answers w ha (hread _ _)⟩,
      fun hno => absurd trivial hno⟩
  | probe nonce srcId destId =>
    refine ⟨fun hhas => ?_, fun hno => cbProbe_silent w hno (hread _ _ _)⟩
    obtain rfl : destId = s.myid := hhas
    exact ⟨_, .probe nonce srcId, cbProbe_answers w K (hread _ _ _)⟩
  | findNode nonce srcId targetId =>
    constructor
    · rintro ⟨p, hp, rfl⟩
      obtain ⟨n, hn, hresponds⟩ := cbFindNode_answers w hs hp (hread _ _ _)
      exact ⟨_, .findNode hp hn, hresponds⟩
    · intro hno
      exact cbFindNode_silent w (fun p hp heq => hno ⟨p, hp, heq⟩) (hread _ _ _)
  | findClosestNodes nonce srcId targetId =>
    obtain ⟨ns, ps, hps, hns, hresponds, hsilent⟩ := cbFindClosestNodes_answers w hs (hread _ _ _)
    have hlen := hps.length
    rw [hns.length_eq] at hlen
    constructor
    · intro hhas
      refine ⟨_, .findClosestNodes hps hns, hresponds fun hnil => ?_⟩
      have hpos := List.length_pos_iff.mpr hhas
      rw [hnil, List.length_nil] at hlen
      omega
    · intro hno
      refine hsilent (List.eq_nil_of_length_eq_zero ?_)
      rw [hlen, not_not.mp hno]
      rfl
  | findService nonce srcId hash =>
    rcases getService_least hs.services hash with
      ⟨t, ht, rfl, hnice, hleast, d, hget, hpass, hsame⟩ | ⟨hnone, d, hget⟩
    · exact ⟨fun _ => ⟨_, .findService ht hleast hsame,
        cbFindService_answers w K hpass hget (hread _ _ _)⟩,
        fun hno => absurd ⟨t, ht, rfl, hnice⟩ hno⟩
    · constructor
      · rintro ⟨t, ht, hhash, hnice⟩
        exact absurd hnice (hnone t ht hhash)
      · exact fun _ => cbFindService_silent w hget (hread _ _ _)
  | pingRsp | findNodeRsp | findClosestNodesRsp | reflexRsp | probeRsp | postService
  | findServiceRsp => cases hq

end Handlers

theorem AnswerTo.labels {s : Vroute} {m : Arrival} {q d : DhtMsg} (h : AnswerTo s m q d) :
    rspOf q.id = some d.id ∧ d.nonce = q.nonce := by
  cases h <;> exact ⟨rfl, rfl⟩

end Vdht.Route
