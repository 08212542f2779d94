import Vdht.Route.Peers
import Vdht.Route.Tickets

/-!
# Connections of peers

A peer is reached at the remote address of its connection. Creating a peer and changing its
addresses both set the connection to the worst of them. A connectivity probe takes one of the
addresses along in a ticket, and the response sets the connection to it when it is not of a higher
priority than the present one. Nothing looks whether the peer still has the address by then.
-/

namespace Vdht.Route

open NodeId Lib

/-- The node space and the tickets of the probes it sends. -/
structure Probing where
  space : NodeSpace
  tickets : List Ticket
  overdue_tmo : Int

/-- The operations that touch the connections of the peers: a peer is added, the peers are probed
from a local address, a response of a probe arrives, the tickets that are overdue go. -/
inductive ProbeOp where
  | addNode (nodei : VnodeInfo) (formed : nodei.WellFormed) (flag : AddFlag)
  | probeConnectivity (laddr : VsockaddrIn) (sent : Nat → Option Vnonce)
  | probeRsp (nonce : Vnonce) (fromId : Token)
  | timedReap

/-- The tickets of `_vroute_dht_probe`; `sent` gives the nonces of the probes that could be
sent. -/
def probeTickets (now : Int) (sent : Nat → Option Vnonce) (calls : List DhtCall) : List Ticket :=
  calls.zipIdx.flatMap fun (call, i) =>
    match call, sent i with
    | .probe conn targetId, some nonce => [⟨now, .check nonce⟩, ⟨now, .conn nonce targetId conn⟩]
    | _, _ => []

/-- `_vroute_cb_probe_rsp` behind the decoder. -/
def probeRsp (s : Probing) (nonce : Vnonce) (fromId : Token) (now : Int) : Res Probing :=
  match checkTicket (.check nonce) s.tickets s.space with
  | .error e => .error e
  | .ok r =>
    if r.found then
      match checkTicket (.conn nonce) r.tickets (kickNode r.space fromId now).1 with
      | .error e => .error e
      | .ok r => .ok { s with space := r.space, tickets := r.tickets }
    else .ok s

/-- An operation of the space and the tickets at its time. -/
def probeExec (s : Probing) : Int × ProbeOp → Res Probing
  | (now, .addNode nodei _ flag) =>
    match addNode s.space nodei flag now with
    | .error e => .error e
    | .ok space => .ok { s with space := space }
  | (now, .probeConnectivity laddr sent) =>
    match probeConnectivity s.space laddr with
    | .error e => .error e
    | .ok (space, calls) =>
      .ok { s with space := space, tickets := s.tickets ++ probeTickets now sent calls }
  | (now, .probeRsp nonce fromId) => probeRsp s nonce fromId now
  | (now, .timedReap) =>
    .ok { s with tickets := (Route.timedReap s.overdue_tmo now s.tickets).1 }

/-- The remote address of the connection is one of the addresses of the node. -/
def Vpeer.Connected (p : Vpeer) : Prop := HasAddr p.nodei.used p.conn.raddr

instance (l : List VsockaddrIn) (a : SockaddrIn) : Decidable (HasAddr l a) :=
  inferInstanceAs (Decidable (∃ x ∈ l, vsockaddrEqual x.addr a = true))

instance (p : Vpeer) : Decidable p.Connected :=
  inferInstanceAs (Decidable (HasAddr p.nodei.used p.conn.raddr))

/-! ## Changing a peer -/

theorem vnodeInfoWorstAddr_mem {n : VnodeInfo} {a : SockaddrIn}
    (h : vnodeInfoWorstAddr n = .ok a) : HasAddr n.used a := by
  unfold vnodeInfoWorstAddr at h
  split at h
  · cases h
  · rename_i hpos
    have hlt : (n.naddrs - 1).toNat < n.naddrs.toNat := by omega
    cases hx : n.addrs[(n.naddrs - 1).toNat]? with
    | none =>
      rw [getSlot, hx] at h
      cases h
    | some x =>
      rw [getSlot, hx] at h
      cases h
      refine ⟨x, List.mem_of_getElem? (i := (n.naddrs - 1).toNat) ?_, vsockaddrEqual_refl _⟩
      rw [AddrBlock.used, List.getElem?_take_of_lt hlt, hx]

theorem mergeSame_unchanged {dest src rest : List VsockaddrIn} {n : Nat}
    (h : mergeSame dest src n = .ok (rest, false)) : rest = dest := by
  induction n generalizing dest src rest with
  | zero =>
    unfold mergeSame at h
    cases h
    rfl
  | succ n ih =>
    cases dest with
    | nil =>
      unfold mergeSame at h
      cases h
    | cons d dest =>
      cases src with
      | nil =>
        unfold mergeSame at h
        cases h
      | cons s src =>
        unfold mergeSame at h
        split at h
        · cases h
        · rename_i rest' updated hrest
          split at h
          · cases h
            rw [ih hrest]
          · cases h

/-- A merge that reports no change only adds addresses. -/
theorem vnodeInfoMerge_hasAddr {dest src d : VnodeInfo} {r : Int} (hd : dest.Sound)
    (hs : src.WellFormed) (h : vnodeInfoMerge dest src = .ok (d, r)) (hr : ¬ r > 0)
    {a : SockaddrIn} (ha : HasAddr dest.used a) : HasAddr d.used a := by
  unfold vnodeInfoMerge at h
  split at h
  · cases h
    exact ha
  · split at h
    · split at h
      · cases h
      · rename_i b r' hb
        cases h
        exact (mergeFake_inv hd hb).2.2 a ha
    · split at h
      · obtain ⟨c, r', hcopy, hr', -⟩ := vnodeInfoCopy_ok hd.toFitting hs.le_max hs.stored
        rw [hcopy] at h
        dsimp only at h
        rw [if_neg (by omega)] at h
        cases h
        exact absurd Int.one_pos hr
      · split at h
        · cases h
        · rename_i addrs updated hm
          cases h
          cases updated with
          | true => exact absurd Int.one_pos hr
          | false =>
            rw [mergeSame_unchanged hm]
            exact ha

theorem vpeerUpdate_connected {space : NodeSpace} {p q : Vpeer} {nodei : VnodeInfo}
    {flag : AddFlag} {now ret : Int} (hp : PeerOk p) (hn : nodei.WellFormed) (hc : p.Connected)
    (h : vpeerUpdate space p nodei flag now = .ok (q, ret)) : q.Connected := by
  have hconn : (vpeerTouch space p flag now).conn = p.conn := by cases flag <;> rfl
  obtain ⟨d, hmerge, ⟨-, worst, hworst, rfl⟩ | ⟨hret, rfl⟩⟩ := vpeerUpdate_cases h
  · exact vnodeInfoWorstAddr_mem hworst
  · show HasAddr d.used (vpeerTouch space p flag now).conn.raddr
    rw [hconn]
    exact vnodeInfoMerge_hasAddr hp.1 hn hmerge hret hc

theorem vpeerInit_connected {space : NodeSpace} {q : Vpeer} {nodei : VnodeInfo} {now : Int}
    (h : vpeerInit space nodei now = .ok q) : q.Connected := by
  obtain ⟨d, r, worst, -, hworst, rfl⟩ := vpeerInit_cases h
  exact vnodeInfoWorstAddr_mem hworst

/-! ## The spaces -/

/-- What holds between two operations. -/
structure NodeSpace.Wired (space : NodeSpace) : Prop where
  inv : space.Inv
  connected : ∀ p ∈ space.peers, p.Connected

/-- The peers that would take the connection have its remote address. -/
def NodeSpace.Fits (space : NodeSpace) (id : Token) (conn : VnodeConn) : Prop :=
  ∀ p ∈ space.peers, p.nodei.id = id → conn.priority ≤ p.conn.priority →
    HasAddr p.nodei.used conn.raddr

theorem PeerStep.connected {space : NodeSpace} {op : Int × SpaceOp} {p q : Vpeer}
    (h : PeerStep space op p q) (hop : op.2.Admissible) (hp : PeerOk p) (hc : p.Connected)
    (hfits : ∀ id conn, op.2 = .adjustConnectivity id conn → p.nodei.id = id →
      conn.priority ≤ p.conn.priority → HasAddr p.nodei.used conn.raddr) : q.Connected := by
  cases h with
  | same => exact hc
  | updated hu => exact vpeerUpdate_connected hp (bumpWeight_wellFormed space hop) hc hu
  | kicked => exact hc
  | adjusted now conn =>
    show HasAddr p.nodei.used (vnodeConnAdjust p.conn conn).raddr
    unfold vnodeConnAdjust
    split
    · exact hc
    · exact hfits _ conn rfl rfl (by omega)
  | probed => exact hc
  | pinged now rand =>
    show HasAddr (pingPeer space now p).1.nodei.used (pingPeer space now p).1.conn.raddr
    rw [pingPeer_nodei, pingPeer_conn]
    exact hc

theorem spaceExec_wired {space : NodeSpace} (h : space.Wired) (op : Int × SpaceOp)
    (hop : op.2.Admissible)
    (hfits : ∀ id conn, op.2 = .adjustConnectivity id conn → space.Fits id conn) :
    ∃ s, spaceExec space op = .ok s ∧ s.Wired := by
  obtain ⟨s, hs, hinv⟩ := spaceExec_ok h.inv op hop
  refine ⟨s, hs, hinv, fun q hq => ?_⟩
  rcases (spaceExec_from hs).2 q hq with ⟨p, hp, hpq⟩ | hent
  · exact hpq.connected hop (h.inv.peerOk hp) (h.connected p hp)
      fun id conn heq => hfits id conn heq p hp
  · cases hent with
    | added flag hne hinit => exact vpeerInit_connected hinit

/-- Adjusting keeps the peers connected exactly when those that take the connection have its
remote address. -/
theorem adjustConnectivity_connected_iff {space : NodeSpace} (h : space.Wired) (id : Token)
    (conn : VnodeConn) :
    (∀ p ∈ (adjustConnectivity space id conn).peers, p.Connected) ↔ space.Fits id conn := by
  constructor
  · rintro hall p hp rfl hprio
    have hkeyed : space.Keyed := fun i => (h.inv i).ok
    have hq := hall _ (mem_setBucket_self (onPeer_mem (hkeyed _).nodup (hkeyed.mem_bucket hp)))
    have hneo : vnodeConnAdjust p.conn conn = conn := if_neg (by omega)
    rw [Vpeer.Connected, hneo] at hq
    exact hq
  · intro hfits
    obtain ⟨s, hs, hw⟩ := spaceExec_wired h (0, .adjustConnectivity id conn) trivial
      fun _ _ heq => by cases heq; exact hfits
    cases hs
    exact hw.connected

theorem adjustConnectivity_fits {space : NodeSpace} {id : Token} {conn : VnodeConn}
    (h : space.Fits id conn) (target : Token) (neo : VnodeConn) :
    (adjustConnectivity space target neo).Fits id conn := by
  intro q hq hid hprio
  rcases (adjustConnectivity_from space target neo 0).2 q hq with ⟨p, hp, hpq⟩ | hent
  · cases hpq with
    | same => exact h q hp hid hprio
    | adjusted =>
      refine h p hp hid (Int.le_trans hprio ?_)
      show (vnodeConnAdjust p.conn neo).priority ≤ p.conn.priority
      unfold vnodeConnAdjust
      split
      · exact Int.le_refl _
      · exact Int.not_lt.mp ‹_›
  · cases hent

theorem kickNode_fits {space : NodeSpace} {id : Token} {conn : VnodeConn}
    (h : space.Fits id conn) (kicked : Token) (now : Int) :
    (kickNode space kicked now).1.Fits id conn := by
  intro q hq hid hprio
  rcases (kickNode_from space kicked now).2 q hq with ⟨p, hp, hpq⟩ | hent
  · cases hpq with
    | same => exact h q hp hid hprio
    | kicked => exact h p hp hid hprio
  · cases hent

/-! ## Responses -/

/-- The connections that the tickets with the nonce carry fit the space. -/
def Fresh (tickets : List Ticket) (nonce : Vnonce) (space : NodeSpace) : Prop :=
  ∀ t ∈ tickets, ∀ id conn, t.info = .conn nonce id conn → space.Fits id conn

theorem checkTicket_conn {nonce : Vnonce} {tickets : List Ticket} {space : NodeSpace}
    (h : space.Wired) (hfresh : Fresh tickets nonce space) :
    ∃ r, checkTicket (.conn nonce) tickets space = .ok r ∧ r.space.Wired := by
  induction tickets generalizing space with
  | nil => exact ⟨_, rfl, h⟩
  | cons t tickets ih =>
    have hrest : Fresh tickets nonce space := fun u hu => hfresh u (List.mem_cons_of_mem _ hu)
    have hpass : vticketPunch space t.info (.conn nonce) = .ok none →
        ∃ r, checkTicket (.conn nonce) (t :: tickets) space = .ok r ∧ r.space.Wired := by
      intro hnone
      obtain ⟨r, hr, hw⟩ := ih h hrest
      rw [checkTicket, hnone]
      dsimp only
      rw [hr]
      exact ⟨_, rfl, hw⟩
    cases hinfo : t.info with
    | check own => exact hpass (by rw [hinfo]; rfl)
    | srvc hash cookie => exact hpass (by rw [hinfo]; rfl)
    | conn own id conn =>
      by_cases hown : vnonceEqual own nonce = true
      · have hfits : space.Fits id conn :=
          hfresh t List.mem_cons_self id conn (by rw [hinfo, vnonceEqual_iff.mp hown])
        obtain ⟨s, hs, hinv⟩ := spaceExec_ok h.inv (0, .adjustConnectivity id conn) trivial
        cases hs
        have hw : (adjustConnectivity space id conn).Wired :=
          ⟨hinv, (adjustConnectivity_connected_iff h id conn).mpr hfits⟩
        obtain ⟨r, hr, hw'⟩ := ih hw fun u hu id' conn' heq =>
          adjustConnectivity_fits (hrest u hu id' conn' heq) id conn
        rw [checkTicket, hinfo, vticketPunch, if_pos hown]
        dsimp only
        rw [hr]
        exact ⟨_, rfl, hw'⟩
      · apply hpass
        rw [hinfo, vticketPunch, if_neg hown]

theorem checkTicket_sublist {arg : TicketArg} {tickets : List Ticket} {space : NodeSpace}
    {r : Checked} (h : checkTicket arg tickets space = .ok r) : r.tickets.Sublist tickets := by
  induction tickets generalizing space r with
  | nil =>
    cases h
    exact List.Sublist.refl _
  | cons t tickets ih =>
    unfold checkTicket at h
    split at h
    · cases h
    · split at h
      · cases h
      · rename_i r' hr
        cases h
        exact (ih hr).cons_cons t
    · split at h
      · cases h
        exact List.sublist_cons_self t tickets
      · split at h
        · cases h
        · rename_i r' hr
          cases h
          exact (ih hr).cons t

/-- A response is met while the peers it concerns have the addresses that were probed. -/
def Probing.Fresh (s : Probing) : Int × ProbeOp → Prop
  | (_, .probeRsp nonce _) => nonce ∈ outstanding s.tickets → Route.Fresh s.tickets nonce s.space
  | _ => True

theorem probeRsp_wired {s : Probing} (h : s.space.Wired) {nonce : Vnonce} {fromId : Token}
    {now : Int} (hop : s.Fresh (now, .probeRsp nonce fromId)) :
    ∃ s', probeRsp s nonce fromId now = .ok s' ∧ s'.space.Wired := by
  obtain ⟨ts, hts, -, -⟩ := checkTicket_check nonce s.tickets s.space
  unfold probeRsp
  rw [hts]
  dsimp only
  by_cases hout : nonce ∈ outstanding s.tickets
  · rw [if_pos (decide_eq_true hout)]
    obtain ⟨k, hk, hw⟩ := spaceExec_wired h (now, .kickNode fromId) trivial
      fun _ _ heq => by cases heq
    cases hk
    have hsub := (checkTicket_sublist hts).subset
    obtain ⟨r, hr, hw'⟩ := checkTicket_conn hw fun t ht id conn heq =>
      kickNode_fits (hop hout t (hsub ht) id conn heq) fromId now
    rw [hr]
    exact ⟨_, rfl, hw'⟩
  · rw [if_neg (by simp [hout])]
    exact ⟨s, rfl, h⟩

theorem probeExec_wired {s : Probing} (h : s.space.Wired) {op : Int × ProbeOp}
    (hop : s.Fresh op) : ∃ s', probeExec s op = .ok s' ∧ s'.space.Wired := by
  obtain ⟨now, op⟩ := op
  cases op with
  | addNode nodei formed flag =>
    obtain ⟨t, ht, hw⟩ := spaceExec_wired h (now, .addNode nodei flag) formed
      fun _ _ heq => by cases heq
    rw [probeExec, show addNode s.space nodei flag now = .ok t from ht]
    exact ⟨_, rfl, hw⟩
  | probeConnectivity laddr sent =>
    obtain ⟨t, ht, hw⟩ := spaceExec_wired h (now, .probeConnectivity laddr) trivial
      fun _ _ heq => by cases heq
    obtain ⟨⟨t', calls⟩, hp, rfl⟩ := map_ok ht
    rw [probeExec, hp]
    exact ⟨_, rfl, hw⟩
  | probeRsp nonce fromId => exact probeRsp_wired h hop
  | timedReap => exact ⟨_, rfl, h⟩

/-- An empty space of peers without tickets, as at the start of a route. -/
def probingInit (zaddr : SockaddrIn) (bucketSz : Nat) (maxNextTmo : Int) (myid myver : Token)
    (overdueTmo : Int) : Probing where
  space := nodeSpaceInit zaddr bucketSz maxNextTmo myid myver
  tickets := []
  overdue_tmo := overdueTmo

/-- A space without peers and any operations on its peers, probes and tickets, at any times. As long
as each response that finds its ticket is met while the peers it concerns have the addresses that
were probed, the run succeeds and every peer is connected to one of its addresses. -/
theorem probing_run_connected (zaddr : SockaddrIn) (bucketSz : Nat) (maxNextTmo : Int)
    (myid myver : Token) (overdueTmo : Int) (ops : List (Int × ProbeOp))
    (h : Along probeExec Probing.Fresh
      (probingInit zaddr bucketSz maxNextTmo myid myver overdueTmo) ops) :
    ∃ s, run probeExec (probingInit zaddr bucketSz maxNextTmo myid myver overdueTmo) ops = .ok s ∧
      ∀ p ∈ s.space.peers, p.Connected := by
  have hinit : (probingInit zaddr bucketSz maxNextTmo myid myver overdueTmo).space.Wired := by
    refine ⟨inv_init zaddr bucketSz maxNextTmo myid myver, ?_⟩
    show ∀ p ∈ (nodeSpaceInit zaddr bucketSz maxNextTmo myid myver).peers, p.Connected
    rw [nodeSpaceInit_peers]
    exact fun p hp => absurd hp List.not_mem_nil
  obtain ⟨s, hs, hw⟩ := along_total (I := fun s => s.space.Wired)
    (fun _ _ hw hop => probeExec_wired hw hop) hinit h
  exact ⟨s, hs, hw.connected⟩

/-! ## A late response -/

/-- A node with one address and a known version. -/
def probedNode (port : UInt16) : VnodeInfo where
  naddrs := 1
  capc := 4
  addrs := [⟨⟨2, port, 1, Block.zero 8⟩, VSOCKADDR_LOCAL⟩]
  id := Block.ofList 20 [1]
  ver := Block.ofList 20 [1]
  weight := 0

theorem probedNode_wellFormed (port : UInt16) : (probedNode port).WellFormed :=
  ⟨by simp [probedNode], by simp [probedNode, MAX_ADDRS], by simp [probedNode]⟩

/-- The empty space of concrete runs, with buckets of one peer and tickets that wait for 3 seconds.
-/
def probingEx : Probing := probingInit zeroAddr.addr 1 10 (Block.zero 20) (Block.zero 20) 3

/-- The node is added and probed. -/
def probedOps : List (Int × ProbeOp) :=
  [(0, .addNode (probedNode 1) (probedNode_wellFormed 1) .byOther),
    (1, .probeConnectivity zeroAddr fun _ => some (Block.ofList VNONCE_LEN [1]))]

/-- It answers in time. -/
theorem probing_run_connected_once :
    ∃ s, run probeExec probingEx
        (probedOps ++ [(2, .probeRsp (Block.ofList VNONCE_LEN [1]) (Block.ofList 20 [1]))]) = .ok s ∧
      ∀ p ∈ s.space.peers, p.Connected := by
  apply probing_run_connected
  refine ⟨trivial, fun m hm => ⟨trivial, fun s hs => ⟨fun _ => ?_, fun _ _ => trivial⟩⟩⟩
  have hrun : run probeExec probingEx probedOps = .ok s :=
    run_cons_ok.mpr ⟨m, hm, run_cons_ok.mpr ⟨s, hs, rfl⟩⟩
  have hall : (run probeExec probingEx probedOps).map (fun s =>
      s.tickets.all (fun t => match t.info with
        | .conn _ _ conn => s.space.peers.all fun p => decide (HasAddr p.nodei.used conn.raddr)
        | _ => true)) = .ok true := by decide +kernel
  rw [hrun] at hall
  intro t ht id conn hinfo p hp _ _
  have htrue := List.all_eq_true.mp (Except.ok.inj hall) t ht
  rw [hinfo] at htrue
  exact of_decide_eq_true (List.all_eq_true.mp htrue p hp)

/-- It moves to another address before it answers, and is connected to the old one. -/
theorem late_response_connects :
    (run probeExec probingEx
      (probedOps ++ [(2, .addNode (probedNode 2) (probedNode_wellFormed 2) .byOther),
        (3, .probeRsp (Block.ofList VNONCE_LEN [1]) (Block.ofList 20 [1]))])).map
      (fun s => decide (∀ p ∈ s.space.peers, p.Connected)) = .ok false := by
  decide +kernel

end Vdht.Route
