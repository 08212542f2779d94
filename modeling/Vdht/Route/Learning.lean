import Vdht.Route.Answers

/-!
# What a node learns

A response to a ping makes its sender a peer that is alive; an announcement puts a service into the
table; a response that brings a service shows it to every user who waits for it. Each time the tables
must have room, or have the entry already.
-/

namespace Vdht.Route

open Vdht.Core Dht Lib Node NodeId

/-! ## Peers -/

section Peers

variable {space : NodeSpace} {n : VnodeInfo}

/-- The node is stored, or there is room for it in its bucket. -/
def Welcomes (space : NodeSpace) (id : Token) : Prop :=
  (∃ p ∈ space.peers, p.nodei.id = id) ∨
    (space.bucket (vnodeIdBucket space.myid id)).peers.length < space.bucket_sz

/-- A peer that has just answered. -/
structure Vpeer.Alive (p : Vpeer) (id : Token) (now : Int) : Prop where
  id : p.nodei.id = id
  no_pings : p.ntry_pings = 0
  tick_ts : p.tick_ts = now

theorem alive_touched {p q : Vpeer} {id : Token} {now ret : Int} (hid : p.nodei.id = id)
    (h : vpeerUpdate space p n .byPingRsp now = .ok (q, ret)) : q.Alive id now := by
  have hkeep := vpeerUpdate_id h
  obtain ⟨d, -, ⟨-, worst, -, rfl⟩ | ⟨-, rfl⟩⟩ := vpeerUpdate_cases h
  · exact ⟨hkeep.trans hid, rfl, rfl⟩
  · exact ⟨hkeep.trans hid, rfl, rfl⟩

/-- A node that has answered a ping is a peer then. -/
theorem addNode_greets (h : space.Inv) (hn : n.WellFormed) (hlocal : n.id ≠ space.myid)
    (hroom : Welcomes space n.id) (now : Int) :
    ∃ s, addNode space n .byPingRsp now = .ok s ∧ ∃ p ∈ s.peers, p.Alive n.id now := by
  have hkeyed : space.Keyed := fun i => (h i).ok
  by_cases hknown : ∃ p ∈ space.peers, p.nodei.id = n.id
  · obtain ⟨p, hp, hid⟩ := hknown
    obtain ⟨s, hadd, -⟩ := addNode_ok h hn .byPingRsp now
    obtain ⟨q, ret, hq, hmem⟩ := addNode_mem hkeyed hp (hid ▸ hlocal) hid.symm hadd
    exact ⟨s, hadd, q, hmem, alive_touched hid hq⟩
  · have hnew : ∀ p ∈ (space.bucket (vnodeIdBucket space.myid n.id)).peers, p.nodei.id ≠ n.id :=
      fun p hp hid => hknown ⟨p, mem_peers_of_bucket hp, hid⟩
    obtain ⟨q, hq, -, hid⟩ := vpeerInit_ok space (bumpWeight_wellFormed space hn) now
    rw [addNode_new hlocal hnew (hroom.resolve_left hknown), appendPeer, hq]
    refine ⟨_, rfl, q, mem_setBucket_self (List.mem_append_right _ List.mem_cons_self), ?_⟩
    obtain ⟨d, r, worst, -, -, rfl⟩ := vpeerInit_cases hq
    exact ⟨hid.trans (bumpWeight_id space n), rfl, rfl⟩

end Peers

/-! ## Services -/

section Services

variable {space : SrvcSpace} {srvci : VsrvcInfo} {now : Int}

/-- A service of the pair is stored, or there is room in the bucket, or a service that is older. -/
def SrvcSpace.Takes (space : SrvcSpace) (srvci : VsrvcInfo) (now : Int) : Prop :=
  (∃ t ∈ space.bucket (vsrvcIdBucket srvci.hostid), srvcPair t.srvci = srvcPair srvci) ∨
    (space.bucket (vsrvcIdBucket srvci.hostid)).length < space.bucket_sz ∨
    ∃ t ∈ space.bucket (vsrvcIdBucket srvci.hostid), 0 < serviceAge now t

/-- The scan has something to give up if a service is old enough. -/
theorem findOldest_older {ss : List Vservice} {start : Nat} {maxPeriod : Int} {dest : Option Nat}
    (h : dest.isSome ∨ ∃ t ∈ ss, maxPeriod < serviceAge now t) :
    (findOldest srvci now ss start maxPeriod dest).2.isSome := by
  induction ss generalizing start maxPeriod dest with
  | nil =>
    rcases h with h | h
    · exact h
    · obtain ⟨t, ht, -⟩ := h
      exact absurd ht List.not_mem_nil
  | cons t ss ih =>
    unfold findOldest
    split
    · rfl
    · split
      · exact ih (Or.inl rfl)
      · rename_i hold
        rcases h with h | h
        · exact ih (Or.inl h)
        · obtain ⟨u, hu, hage⟩ := h
          rcases List.mem_cons.mp hu with rfl | hu
          · exact absurd hage hold
          · exact ih (Or.inr ⟨u, hu, hage⟩)

theorem overwriteService_stores (h : ∀ i, ∀ t ∈ space.bucket i, InOrder t.srvci)
    (hs : srvci.Copyable) {idx : Fin NBUCKETS} {j : Nat} {old : Vservice}
    (hj : (space.bucket idx)[j]? = some old) :
    ∃ space' t, overwriteService space idx j srvci now = .ok space' ∧ t ∈ space'.services ∧
      t.StoredAs srvci now := by
  obtain ⟨t, hinit, -, hstored⟩ := vserviceInit_stored
    (h idx old (List.mem_of_getElem? hj)).sound.toFitting hs now
  obtain ⟨hlt, -⟩ := List.getElem?_eq_some_iff.mp hj
  refine ⟨space.setBucket idx ((space.bucket idx).set j t), t, ?_, mem_allItems.mpr ⟨idx, ?_⟩, hstored⟩
  · unfold overwriteService getSlot
    rw [hj]
    dsimp only
    rw [hinit]
  · rw [SrvcSpace.setBucket_self]
    exact List.mem_set hlt t

theorem appendService_stores (hs : srvci.Copyable) (idx : Fin NBUCKETS) :
    ∃ space' t, appendService space idx srvci now = .ok space' ∧ t ∈ space'.services ∧
      t.StoredAs srvci now := by
  obtain ⟨t, hinit, -, hstored⟩ := @vserviceInit_stored ⟨vsrvcInfoAlloc, 0⟩ _ fitting_vsrvcInfoAlloc
    hs now
  refine ⟨space.setBucket idx (space.bucket idx ++ [t]), t, ?_, mem_allItems.mpr ⟨idx, ?_⟩, hstored⟩
  · rw [appendService, hinit]
  · rw [SrvcSpace.setBucket_self]
    exact List.mem_append_right _ List.mem_cons_self

/-- Adding a service whose pair the scan did not meet. -/
theorem addService_unmet {dest : Option Nat}
    (h : findOldest srvci now (space.bucket (vsrvcIdBucket srvci.hostid)) 0 0 none = (false, dest)) :
    addService space srvci now =
      if dest.isSome ∧ (space.bucket (vsrvcIdBucket srvci.hostid)).length ≥ space.bucket_sz then
        overwriteService space (vsrvcIdBucket srvci.hostid) (dest.getD 0) srvci now
      else if (space.bucket (vsrvcIdBucket srvci.hostid)).length < space.bucket_sz then
        appendService space (vsrvcIdBucket srvci.hostid) srvci now
      else .ok space := by
  unfold addService
  dsimp only
  rw [h]

/-- An announced service is in the table then. -/
theorem addService_stores (h : ∀ i, ∀ t ∈ space.bucket i, InOrder t.srvci) (hs : srvci.Copyable)
    (htakes : space.Takes srvci now) :
    ∃ space' t, addService space srvci now = .ok space' ∧ t ∈ space'.services ∧
      t.StoredAs srvci now := by
  rcases findOldest_spec srvci now (space.bucket (vsrvcIdBucket srvci.hostid)) 0 0 none with
    ⟨j, old, hres, hj, -⟩ | ⟨hmiss, hnone, hdest⟩
  · unfold addService
    dsimp only
    rw [hres, Nat.zero_add]
    exact overwriteService_stores h hs hj
  · have hpick : (space.bucket (vsrvcIdBucket srvci.hostid)).length < space.bucket_sz ∨
        (findOldest srvci now (space.bucket (vsrvcIdBucket srvci.hostid)) 0 0 none).2.isSome := by
      rcases htakes with ⟨t, ht, hpair⟩ | hroom | hold
      · exact absurd hpair (hnone t ht)
      · exact Or.inl hroom
      · exact Or.inr (findOldest_older (Or.inr hold))
    obtain ⟨dest, hfind⟩ : ∃ dest,
        findOldest srvci now (space.bucket (vsrvcIdBucket srvci.hostid)) 0 0 none = (false, dest) :=
      ⟨_, Prod.ext hmiss rfl⟩
    rw [hfind] at hpick hdest
    rw [addService_unmet hfind]
    by_cases hfull : dest.isSome ∧
        (space.bucket (vsrvcIdBucket srvci.hostid)).length ≥ space.bucket_sz
    · rw [if_pos hfull]
      rcases hdest with rfl | ⟨j, old, rfl, hj⟩
      · exact absurd hfull.1 Bool.false_ne_true
      · rw [Option.getD_some, Nat.zero_add]
        exact overwriteService_stores h hs hj
    · have hroom : (space.bucket (vsrvcIdBucket srvci.hostid)).length < space.bucket_sz := by
        rcases hpick with hroom | hsome
        · exact hroom
        · exact Nat.not_le.mp fun hle => hfull ⟨hsome, hle⟩
      rw [if_neg hfull, if_pos hroom]
      exact appendService_stores hs _

end Services

/-! ## Asking -/

section Asking

variable {K : AddrKey → Prop} (w : World)

theorem sendQuery_called {c : DhtCall} {enc : Vnonce → Token → Int → Res (Option (List UInt8))}
    (henc : ∀ nonce myid, enc nonce myid vdhtBufLen = (c.message nonce myid).encode) (now : Int)
    {s : Vroute} {out : List UInt8}
    (hout : (c.message (w.nonce s.nmsgs) s.myid).encode = .ok (some out)) :
    ∃ r tickets, sendQuery w c.id c.conn enc c.tickets now s = .ok r
        { s with
          nmsgs := s.nmsgs + 1
          log := s.log ++ if w.push s.nmsgs then [.pushed c.id c.conn (w.nonce s.nmsgs) out] else []
          tickets := tickets } ∧ s.tickets ⊆ tickets := by
  unfold sendQuery
  rw [bind_ok_apply (get_apply s), henc, hout]
  by_cases hpush : w.push s.nmsgs = true
  · have hsend : sendMsg w c.id c.conn (w.nonce s.nmsgs) (.ok (some out)) s = .ok true
        { s with
          nmsgs := s.nmsgs + 1
          log := s.log ++ [.pushed c.id c.conn (w.nonce s.nmsgs) out] } := if_pos hpush
    rw [bind_ok_apply hsend, if_pos hpush]
    exact ⟨_, _, rfl, List.subset_append_left _ _⟩
  · have hsend : sendMsg w c.id c.conn (w.nonce s.nmsgs) (.ok (some out)) s =
        .ok false { s with nmsgs := s.nmsgs + 1 } := if_neg hpush
    rw [bind_ok_apply hsend, if_neg hpush, List.append_nil]
    exact ⟨_, _, rfl, fun _ ht => ht⟩

/-- The messages of a call: one if it can go out. -/
def called (w : World) (s : Vroute) (c : DhtCall) (out : List UInt8) : List RouteEvent :=
  if goesOut w s c.id then [.pushed c.id c.conn (w.nonce s.nmsgs) out] else []

theorem gated_called {c : DhtCall} (hfree : isFree c.id = false) {p : RouteM Int} {s : Vroute}
    {out : List UInt8}
    (h : ∃ r tickets, p s = .ok r
      { s with
        nmsgs := s.nmsgs + 1
        log := s.log ++ if w.push s.nmsgs then [.pushed c.id c.conn (w.nonce s.nmsgs) out] else []
        tickets := tickets } ∧ s.tickets ⊆ tickets) :
    ∃ r tickets, ∃ n ≤ 1, gated c.id p s = .ok r
      { s with nmsgs := s.nmsgs + n, log := s.log ++ called w s c out, tickets := tickets } ∧
        s.tickets ⊆ tickets := by
  unfold gated called goesOut
  rw [bind_ok_apply (get_apply s), hfree, Bool.false_or]
  by_cases hprop : hasProp s.props c.id = true
  · obtain ⟨r, tickets, hok, hsub⟩ := h
    rw [if_pos hprop, hprop, Bool.and_true]
    exact ⟨r, tickets, 1, le_rfl, hok, hsub⟩
  · rw [if_neg hprop, Bool.eq_false_iff.mpr hprop, Bool.and_false]
    refine ⟨0, s.tickets, 0, Nat.zero_le 1, ?_, fun _ ht => ht⟩
    show EStateM.Result.ok 0 s = .ok 0 { s with log := s.log ++ [] }
    rw [List.append_nil]

theorem free_called {c : DhtCall} (hfree : isFree c.id = true) {p : RouteM Int} {s : Vroute}
    {out : List UInt8}
    (h : ∃ r tickets, p s = .ok r
      { s with
        nmsgs := s.nmsgs + 1
        log := s.log ++ if w.push s.nmsgs then [.pushed c.id c.conn (w.nonce s.nmsgs) out] else []
        tickets := tickets } ∧ s.tickets ⊆ tickets) :
    ∃ r tickets, ∃ n ≤ 1, p s = .ok r
      { s with nmsgs := s.nmsgs + n, log := s.log ++ called w s c out, tickets := tickets } ∧
        s.tickets ⊆ tickets := by
  unfold called goesOut
  rw [hfree, Bool.true_or, Bool.and_true]
  obtain ⟨r, tickets, hok, hsub⟩ := h
  exact ⟨r, tickets, 1, le_rfl, hok, hsub⟩

/-- A call uses up the number of at most one message. -/
theorem dhtCall_called {c : DhtCall} (now : Int) {s : Vroute} {out : List UInt8}
    (hout : (c.message (w.nonce s.nmsgs) s.myid).encode = .ok (some out)) :
    ∃ r tickets, ∃ n ≤ 1, dhtCall w now c s = .ok r
      { s with nmsgs := s.nmsgs + n, log := s.log ++ called w s c out, tickets := tickets } ∧
        s.tickets ⊆ tickets := by
  cases c with
  | ping conn =>
    exact gated_called w (c := .ping conn) rfl (sendQuery_called w (fun _ _ => rfl) now hout)
  | findNode conn target =>
    exact gated_called w (c := .findNode conn target) rfl
      (sendQuery_called w (fun _ _ => rfl) now hout)
  | findClosestNodes conn target =>
    exact gated_called w (c := .findClosestNodes conn target) rfl
      (sendQuery_called w (fun _ _ => rfl) now hout)
  | postService conn srvci =>
    exact gated_called w (c := .postService conn srvci) rfl
      (sendQuery_called w (fun _ _ => rfl) now hout)
  | findService conn hash =>
    exact gated_called w (c := .findService conn hash) rfl
      (sendQuery_called w (fun _ _ => rfl) now hout)
  | reflex conn =>
    exact free_called w (c := .reflex conn) rfl (sendQuery_called w (fun _ _ => rfl) now hout)
  | probe conn target =>
    exact free_called w (c := .probe conn target) rfl
      (@sendQuery_called w (.probe conn target) (fun nonce myid => encProbe nonce myid target)
        (fun _ _ => rfl) now s out hout)

/-- The calls can be said. -/
def Speakable (calls : List DhtCall) : Prop :=
  ∀ conn srvci, .postService conn srvci ∈ calls → Passable srvci

theorem Speakable.written {calls : List DhtCall} (h : Speakable calls) {c : DhtCall} (hc : c ∈ calls)
    (nonce : Vnonce) (myid : Token) : ∃ out, (c.message nonce myid).encode = .ok (some out) := by
  have hsay : Sayable (fun _ => True) (c.message nonce myid) := by
    cases c with
    | postService conn srvci => exact h conn srvci hc
    | ping | findNode | findClosestNodes | reflex | probe | findService => trivial
  obtain ⟨out, -, hout, -⟩ := sayable_written hsay
  exact ⟨out, hout⟩

/-- The message a call has led to. -/
def Asked (myid : Token) (e : RouteEvent) (c : DhtCall) : Prop :=
  ∃ nonce out, e = .pushed c.id c.conn nonce out ∧ (c.message nonce myid).encode = .ok (some out)

/-- The queue has room for the next `count` messages, the first of them being the one with the
number `first`. Later messages, and those of other calls, may still be refused. -/
def World.HasRoom (w : World) (first count : Nat) : Prop :=
  ∀ k < count, w.push (first + k) = true

/-- A call that takes at most one number leaves room for the calls after it. -/
theorem World.HasRoom.onwards {first count n : Nat} (h : w.HasRoom first (count + 1)) (hn : n ≤ 1) :
    w.HasRoom (first + n) count := by
  intro k hk
  have hnext := h (n + k) (by omega)
  rwa [← Nat.add_assoc] at hnext

/-- Calls add tickets, and one message for each of the calls that go out; these are all of them when
the queue has room for so many and the configuration enables their kinds. -/
theorem dhtCalls_called {l : List DhtCall} (h : Speakable l) (now : Int) (s : Vroute) :
    ∃ n L tickets, dhtCalls w now l s = .ok ()
        { s with nmsgs := n, log := s.log ++ L, tickets := tickets } ∧ s.tickets ⊆ tickets ∧
      ∃ cs, cs.Sublist l ∧ List.Forall₂ (Asked s.myid) L cs ∧
        (w.HasRoom s.nmsgs l.length → (∀ c ∈ l, isFree c.id || hasProp s.props c.id) → cs = l) := by
  induction l generalizing s with
  | nil =>
    refine ⟨s.nmsgs, [], s.tickets, ?_, fun _ ht => ht, [], .slnil, .nil, fun _ _ => rfl⟩
    rw [List.append_nil]
    rfl
  | cons c calls ih =>
    obtain ⟨out, hout⟩ := h.written List.mem_cons_self (w.nonce s.nmsgs) s.myid
    obtain ⟨r, tickets, n, hn, hcall, hsub⟩ := dhtCall_called w now hout
    obtain ⟨n', L, tickets', hcalls, hsub', cs, hcs, hasked, hall⟩ :=
      ih (fun conn srvci hc => h conn srvci (List.mem_cons_of_mem _ hc))
        { s with nmsgs := s.nmsgs + n, log := s.log ++ called w s c out, tickets := tickets }
    refine ⟨n', called w s c out ++ L, tickets', ?_, fun _ ht => hsub' (hsub ht), ?_⟩
    · show (dhtCall w now c >>= fun _ => dhtCalls w now calls) s = _
      rw [bind_ok_apply hcall, hcalls, List.append_assoc]
    · rw [called]
      by_cases hgoes : goesOut w s c.id = true
      · rw [if_pos hgoes]
        refine ⟨c :: cs, hcs.cons_cons c, .cons ⟨_, out, rfl, hout⟩ hasked, fun hroom hprop => ?_⟩
        rw [hall (hroom.onwards w hn) fun c' hc' => hprop c' (List.mem_cons_of_mem _ hc')]
      · rw [if_neg hgoes]
        refine ⟨cs, hcs.cons c, hasked, fun hroom hprop => absurd ?_ hgoes⟩
        have hpush : w.push s.nmsgs = true := hroom 0 (Nat.succ_pos _)
        rw [goesOut, hpush, Bool.true_and]
        exact hprop c List.mem_cons_self

end Asking

/-! ## Good peers -/

section GoodPeers

variable (w : World)

/-- The peers that users' messages go to. -/
def NodeSpace.goodPeers (space : NodeSpace) : List Vpeer := space.peers.filter (isGood space)

theorem forPeers_good (space : NodeSpace) (f : Vpeer → DhtCall) :
    (forPeers space fun p => if isGood space p then [f p] else []) = space.goodPeers.map f := by
  unfold forPeers NodeSpace.goodPeers
  induction space.peers with
  | nil => rfl
  | cons p ps ih =>
    rw [List.flatMap_cons, ih]
    by_cases hgood : isGood space p = true
    · rw [if_pos hgood, List.filter_cons_of_pos hgood]
      rfl
    · rw [if_neg hgood, List.filter_cons_of_neg hgood]
      rfl

theorem airService_called {a : VsrvcInfo} (ha : Passable a) (now : Int) (s : Vroute) :
    ∃ L, (endState (routeOp w (.airService a now) s)).log = s.log ++ L ∧
      (w.HasRoom s.nmsgs s.node_space.goodPeers.length → hasProp s.props .postService = true →
        List.Forall₂ (Asked s.myid) L
          (s.node_space.goodPeers.map fun p => .postService p.conn a)) := by
  have hair : airService s.node_space a = s.node_space.goodPeers.map fun p => .postService p.conn a :=
    forPeers_good _ _
  obtain ⟨n, L, tickets, hcalls, -, cs, -, hasked, hall⟩ := dhtCalls_called w
    (l := airService s.node_space a) (fun conn srvci hc => calls_airService hc ▸ ha) now s
  refine ⟨L, ?_, fun hroom hprop => ?_⟩
  · show (endState (vrouteAirService w a now s)).log = _
    unfold vrouteAirService
    rw [bind_ok_apply (get_apply s), bind_ok_apply hcalls]
    rfl
  · have hprops : ∀ c ∈ airService s.node_space a, isFree c.id || hasProp s.props c.id := by
      rw [hair]
      intro c hc
      obtain ⟨p, -, rfl⟩ := List.mem_map.mp hc
      exact (Bool.or_eq_true _ _).mpr (Or.inr hprop)
    have hcount : (airService s.node_space a).length = s.node_space.goodPeers.length := by
      rw [hair, List.length_map]
    rw [← hair, ← hall (hcount ▸ hroom) hprops]
    exact hasked

theorem probeService_called (hash : Token) (cookie : Nat) (now : Int) (s : Vroute) :
    ∃ L, (endState (routeOp w (.probeService hash cookie now) s)).log = s.log ++ L ∧
      ⟨now, .srvc hash cookie⟩ ∈ (endState (routeOp w (.probeService hash cookie now) s)).tickets ∧
      (w.HasRoom s.nmsgs s.node_space.goodPeers.length → hasProp s.props .findService = true →
        List.Forall₂ (Asked s.myid) L
          (s.node_space.goodPeers.map fun p => .findService p.conn hash)) := by
  have hprobe : probeService s.node_space hash =
      s.node_space.goodPeers.map fun p => .findService p.conn hash := forPeers_good _ _
  obtain ⟨n, L, tickets, hcalls, -, cs, -, hasked, hall⟩ := dhtCalls_called w
    (l := probeService s.node_space hash) (fun conn srvci hc => absurd rfl (calls_probeService hc))
    now s
  have hrun : endState (routeOp w (.probeService hash cookie now) s) =
      { s with
        nmsgs := n
        log := s.log ++ L
        tickets := tickets ++ [⟨now, .srvc hash cookie⟩] } := by
    show endState (vrouteProbeService w hash cookie now s) = _
    unfold vrouteProbeService
    rw [bind_ok_apply (get_apply s), bind_ok_apply hcalls]
    rfl
  refine ⟨L, ?_, ?_, fun hroom hprop => ?_⟩
  · rw [hrun]
  · rw [hrun]
    exact List.mem_append_right _ List.mem_cons_self
  · have hprops : ∀ c ∈ probeService s.node_space hash, isFree c.id || hasProp s.props c.id := by
      rw [hprobe]
      intro c hc
      obtain ⟨p, -, rfl⟩ := List.mem_map.mp hc
      exact (Bool.or_eq_true _ _).mpr (Or.inr hprop)
    have hcount : (probeService s.node_space hash).length = s.node_space.goodPeers.length := by
      rw [hprobe, List.length_map]
    rw [← hprobe, ← hall (hcount ▸ hroom) hprops]
    exact hasked

end GoodPeers

/-! ## Users who wait -/

section Waiting

/-- The users who wait for a service are called with its addresses. -/
theorem checkTicket_calls {srvci : VsrvcInfo} {addrs : List VsockaddrIn}
    (haddrs : showAddrs srvci.toAddrBlock = .ok addrs) {tickets : List Ticket} {space : NodeSpace}
    {r : Checked} (h : checkTicket (.srvc srvci) tickets space = .ok r) {t : Ticket} {cookie : Nat}
    (ht : t ∈ tickets) (hinfo : t.info = .srvc srvci.hash cookie) :
    ⟨cookie, srvci.hash, srvci.naddrs, srvci.proto.toInt, addrs⟩ ∈ r.shown := by
  induction tickets generalizing space r with
  | nil => exact absurd ht List.not_mem_nil
  | cons u tickets ih =>
    unfold checkTicket at h
    rcases List.mem_cons.mp ht with rfl | ht
    · have hpunch : vticketPunch space t.info (.srvc srvci) =
          .ok (some (space, [⟨cookie, srvci.hash, srvci.naddrs, srvci.proto.toInt, addrs⟩])) := by
        have heq : vsrvcHashEqual srvci.hash srvci.hash = true := vtokenEqual_iff.mpr rfl
        rw [hinfo, vticketPunch, if_pos heq, haddrs]
      rw [hpunch] at h
      dsimp only at h
      split at h
      · cases h
      · cases h
        exact List.mem_append_left _ List.mem_cons_self
    · split at h
      · cases h
      · split at h
        · cases h
        · rename_i r' hr
          cases h
          show _ ∈ r'.shown
          exact ih hr ht
      · dsimp only at h
        split at h
        · cases h
        · rename_i r' hr
          cases h
          exact List.mem_append_right _ (ih hr ht)

/-- A check of a nonce leaves the users waiting. -/
theorem checkTicket_keeps {nonce : Vnonce} {tickets : List Ticket} {space : NodeSpace} {r : Checked}
    (h : checkTicket (.check nonce) tickets space = .ok r) {t : Ticket} (ht : t ∈ tickets)
    (hinfo : t.info ≠ .check nonce) : t ∈ r.tickets := by
  induction tickets generalizing space r with
  | nil => exact absurd ht List.not_mem_nil
  | cons u tickets ih =>
    unfold checkTicket at h
    split at h
    · cases h
    · split at h
      · cases h
      · rename_i r' hr
        cases h
        rcases List.mem_cons.mp ht with rfl | ht
        · exact List.mem_cons_self
        · exact List.mem_cons_of_mem _ (ih hr ht)
    · rename_i space' shown hpunch
      cases h
      rcases List.mem_cons.mp ht with rfl | ht
      · rw [vticketPunch_passes hinfo] at hpunch
        cases hpunch
      · exact ht

/-- A response whose nonce is awaited; the users go on waiting. -/
theorem withToken_awaited {nonce : Vnonce} {s : Vroute} (hnonce : nonce ∈ outstanding s.tickets)
    (rest : RouteM Int) :
    ∃ tickets, (∀ t ∈ s.tickets, t.info ≠ .check nonce → t ∈ tickets) ∧
      withToken nonce rest s = rest { s with tickets := tickets, log := s.log ++ [.accepted nonce] } := by
  obtain ⟨ts, hcheck, -, -⟩ := checkTicket_check nonce s.tickets s.node_space
  have hstep : checkTickets (.check nonce) s = .ok true { s with tickets := ts } := by
    unfold checkTickets
    rw [hcheck]
    simp only [decide_eq_true hnonce, List.map_nil, List.append_nil]
  refine ⟨ts, fun t ht hinfo => checkTicket_keeps hcheck ht hinfo, ?_⟩
  unfold withToken
  rw [bind_ok_apply hstep, if_pos rfl]
  exact bind_ok_apply (modify_apply _ _) _

end Waiting

/-! ## Handlers -/

section Handlers

variable {K : AddrKey → Prop} {w : World} {s : Vroute} {m : Arrival} {ctxt : BeNode}
  {nonce : Vnonce} {srcId : Token}

theorem passNode_apply {n : VnodeInfo} {flag : AddFlag} {now : Int} {space : NodeSpace}
    (h : addNode s.node_space n flag now = .ok space) (leaf : Option BeNode) :
    passNode leaf n flag now s = .ok ()
      { s with node_space := space, log := s.log ++ [.nodePassed leaf n] } := by
  unfold passNode emit
  rw [bind_ok_apply (modify_apply _ s)]
  unfold storeNode
  rw [h]

theorem passService_apply {srvci : VsrvcInfo} {now : Int} {space : SrvcSpace}
    (h : addService s.srvc_space srvci now = .ok space) (leaf : Option BeNode) :
    passService leaf srvci now s = .ok ()
      { s with srvc_space := space, log := s.log ++ [.srvcPassed leaf srvci] } := by
  unfold passService emit
  rw [bind_ok_apply (modify_apply _ s)]
  unfold storeService
  rw [h]

/-- A response to a ping that is awaited. -/
theorem cbPingRsp_greets (hs : Healthy K s) {n : VnodeInfo} (hn : Known K n)
    (hread : (DhtMsg.pingRsp nonce srcId n).ReadFrom ctxt) (hnonce : nonce ∈ outstanding s.tickets)
    (hlocal : n.id ≠ s.node_space.myid) (hroom : Welcomes s.node_space n.id) :
    ∃ p ∈ (endState (cbPingRsp m ctxt s)).node_space.peers, p.Alive n.id m.now := by
  obtain ⟨b, hdec, hsame⟩ := hread m.nonce nodeRelaxBlock
  have hread := known_read hsame hn
  have hid : (vnodeInfoOfBytes b.data).id = n.id := hsame.id
  rw [← hid] at hlocal hroom ⊢
  obtain ⟨space, hadd, p, hp, halive⟩ := addNode_greets hs.nodes.inv hread.toWellFormed hlocal hroom m.now
  obtain ⟨tickets, -, haccept⟩ := withToken_awaited hnonce
    (passNode (argNode ctxt "node") (vnodeInfoOfBytes b.data) .byPingRsp m.now >>= fun _ => pure 0)
  unfold cbPingRsp
  rw [hdec, bind_ok_apply (lift_ok _ s)]
  dsimp only
  rw [haccept]
  have hpass := @passNode_apply { s with tickets := tickets, log := s.log ++ [.accepted nonce] }
    _ _ _ _ hadd (argNode ctxt "node")
  rw [bind_ok_apply hpass]
  exact ⟨p, hp, halive⟩

theorem SrvcSpace.Takes.of_pair {space : SrvcSpace} {a b : VsrvcInfo} {now : Int}
    (h : space.Takes a now) (hpair : srvcPair b = srvcPair a) : space.Takes b now := by
  have hhost : b.hostid = a.hostid := congrArg Prod.fst hpair
  unfold SrvcSpace.Takes at h ⊢
  rwa [hpair, hhost]

theorem storedAs_same {t : Vservice} {a b : VsrvcInfo} {now : Int} (hsame : SameSrvc b a)
    (h : t.StoredAs b now) : t.StoredAs a now where
  pair := by rw [h.pair, srvcPair, srvcPair, hsame.hostid, hsame.hash]
  nice := h.nice.trans hsame.nice
  proto := h.proto.trans hsame.proto
  addrs := by rw [h.addrs, hsame.used]
  time := h.time

/-- An announcement. -/
theorem cbPostService_stores (hs : Healthy K s) {a : VsrvcInfo} (ha : Passable a)
    (hread : (DhtMsg.postService nonce srcId a).ReadFrom ctxt)
    (htakes : s.srvc_space.Takes a m.now) :
    ∃ t ∈ (endState (cbPostService m ctxt s)).srvc_space.services, t.StoredAs a m.now := by
  obtain ⟨b, hdec, hsame⟩ := hread m.nonce m.fromId srvcRelaxBlock
  have hpair : srvcPair (vsrvcInfoOfBytes b.data) = srvcPair a := by
    rw [srvcPair, srvcPair, hsame.hostid, hsame.hash]
  obtain ⟨space, t, hadd, ht, hstored⟩ := addService_stores hs.services (passable_read hsame ha).1
    (htakes.of_pair hpair)
  unfold cbPostService
  rw [hdec, bind_ok_apply (lift_ok _ s)]
  dsimp only
  rw [bind_ok_apply (kick_apply srcId m.now)]
  have hpass := @passService_apply { s with node_space := noted s srcId m.now } _ _ _ hadd
    (argNode ctxt "service")
  rw [bind_ok_apply hpass]
  exact ⟨t, ht, storedAs_same hsame hstored⟩

theorem checkTickets_shows {a : VsrvcInfo} (hstored : a.naddrs ≤ a.addrs.length) {t : Ticket}
    {cookie : Nat} (ht : t ∈ s.tickets) (hinfo : t.info = .srvc a.hash cookie) (ret : Int) :
    .shown ⟨cookie, a.hash, a.naddrs, a.proto.toInt, a.used⟩ ∈
      (endState ((checkTickets (.srvc a) >>= fun _ => pure ret) s)).log := by
  obtain ⟨r, hr⟩ := checkTicket_ok (show (TicketArg.srvc a).Stored from hstored) s.tickets s.node_space
  have hshow : showAddrs a.toAddrBlock = .ok a.used := by
    unfold showAddrs
    rw [if_neg (not_lt_of_ge hstored)]
  have hcall := checkTicket_calls hshow hr ht hinfo
  have hcheck : checkTickets (.srvc a) s = .ok r.found
      { s with
        tickets := r.tickets
        node_space := r.space
        log := s.log ++ r.shown.map RouteEvent.shown } := by
    unfold checkTickets
    rw [hr]
  rw [bind_ok_apply hcheck]
  exact List.mem_append_right _ (List.mem_map_of_mem hcall)

/-- The handler of a response that brings a service, after the nonce has been checked and until the
users are called: the service is stored and its host is looked for. -/
theorem serviceRead_run (w : World) (hs : ∀ i, ∀ t ∈ s.srvc_space.bucket i, InOrder t.srvci)
    {a : VsrvcInfo} (hcopy : a.Copyable) (hdistinct : DistinctAddrs a.used) (srcId : Token)
    (leaf : Option BeNode) (now : Int) (rest : RouteM Int) :
    ∃ n L tickets space cs, (do
        let _ ← kick srcId now
        passService leaf a now
        let s ← get
        dhtCalls w now (probeNode s.node_space a.hostid)
        rest) s =
      rest { s with
        nmsgs := n
        node_space := noted s srcId now
        srvc_space := space
        log := s.log ++ [.srvcPassed leaf a] ++ L
        tickets := tickets } ∧ s.tickets ⊆ tickets ∧
      cs.Sublist (probeNode (noted s srcId now) a.hostid) ∧ List.Forall₂ (Asked s.myid) L cs := by
  obtain ⟨space, hadd, -⟩ := addService_holds (fun t ht => ht.sound.toFitting)
    (fun dest hdest => copy_inOrder hdest hcopy hdistinct) hs now
  have hpass := @passService_apply { s with node_space := noted s srcId now } _ _ _ hadd leaf
  obtain ⟨n, L, tickets, hcalls, hsub, cs, hcs, hasked, -⟩ := dhtCalls_called w
    (l := probeNode (noted s srcId now) a.hostid) (fun conn srvci hc => absurd rfl (calls_probeNode hc))
    now { s with
      node_space := noted s srcId now
      srvc_space := space
      log := s.log ++ [.srvcPassed leaf a] }
  refine ⟨n, L, tickets, space, cs, ?_, hsub, hcs, hasked⟩
  rw [bind_ok_apply (kick_apply srcId now), bind_ok_apply hpass, bind_ok_apply (get_apply _),
    bind_ok_apply hcalls]

/-- A response that brings a service, while a user waits for it. -/
theorem cbFindServiceRsp_shows (hs : Healthy K s) {a : VsrvcInfo} (ha : Passable a)
    (hread : (DhtMsg.findServiceRsp nonce srcId a).ReadFrom ctxt)
    (hnonce : nonce ∈ outstanding s.tickets) {t : Ticket} {cookie : Nat} (ht : t ∈ s.tickets)
    (hinfo : t.info = .srvc a.hash cookie) :
    .shown ⟨cookie, a.hash, a.naddrs, a.proto.toInt, a.used⟩ ∈
      (endState (cbFindServiceRsp w m ctxt s)).log := by
  obtain ⟨b, hdec, hsame⟩ := hread m.nonce m.fromId srvcRelaxBlock
  obtain ⟨hcopy, hdistinct⟩ := passable_read hsame ha
  unfold cbFindServiceRsp
  rw [hdec, bind_ok_apply (lift_ok _ s)]
  dsimp only
  obtain ⟨tickets, hkeep, haccept⟩ := withToken_awaited hnonce _
  have hwait : t ∈ tickets := hkeep t ht (by rw [hinfo]; exact TicketInfo.noConfusion)
  rw [haccept, ← hsame.hash, ← hsame.naddrs, ← hsame.proto, ← hsame.used]
  obtain ⟨n, L, tickets', space, cs, hrun, hsub, -⟩ := serviceRead_run w
    (s := { s with tickets := tickets, log := s.log ++ [.accepted nonce] }) hs.services hcopy
    hdistinct srcId (argNode ctxt "service") m.now
    (checkTickets (.srvc (vsrvcInfoOfBytes b.data)) >>= fun _ => pure 0)
  rw [hrun]
  exact checkTickets_shows hcopy.stored (hsub hwait) (hsame.hash ▸ hinfo) 0

end Handlers

end Vdht.Route
