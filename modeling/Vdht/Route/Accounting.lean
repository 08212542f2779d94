import Vdht.Lib.Ledger
import Vdht.Lib.Run
import Vdht.Route.Growth

/-!
# Accepted responses

The log of a run is a ledger of nonces: a query that was pushed puts its nonce in stock, a
response that passes its token check takes it out, and the check tickets are what is left. So
a response is accepted at most once for every query with its nonce, and one that is not
accepted changes nothing. A message teaches the node space the version of a node only behind
such a check.
-/

namespace Vdht.Route

open Vdht.Core Dht Lib Node NodeId

/-! ## Responses -/

/-- What becomes of a response with this nonce: it takes one check ticket and what follows is
growth, or there is no ticket and nothing happens. -/
def Settled (s : Vroute) (nonce : Vnonce) (r : EStateM.Result Fault Vroute Int) : Prop :=
  if nonce ∈ outstanding s.tickets then
    ∃ tickets L, outstanding tickets = (outstanding s.tickets).erase nonce ∧
      Grown L { s with tickets := tickets, log := s.log ++ [.accepted nonce] } (endState r)
  else r = .ok (-1) s

/-- The token check and what follows it. -/
theorem withToken_cases (nonce : Vnonce) (rest : RouteM Int) (s : Vroute) :
    (nonce ∉ outstanding s.tickets ∧ withToken nonce rest s = .ok (-1) s) ∨
      (nonce ∈ outstanding s.tickets ∧ ∃ tickets,
        outstanding tickets = (outstanding s.tickets).erase nonce ∧
        withToken nonce rest s =
          rest { s with tickets := tickets, log := s.log ++ [.accepted nonce] }) := by
  obtain ⟨ts, hcheck, hout, hsame⟩ := checkTicket_check nonce s.tickets s.node_space
  have hstep : checkTickets (.check nonce) s =
      .ok (decide (nonce ∈ outstanding s.tickets)) { s with tickets := ts } := by
    unfold checkTickets
    rw [hcheck]
    simp
  unfold withToken
  rw [bind_ok_apply hstep]
  by_cases hmem : nonce ∈ outstanding s.tickets
  · rw [if_pos (decide_eq_true hmem)]
    exact Or.inr ⟨hmem, ts, hout, rfl⟩
  · rw [if_neg (by simpa using hmem), hsame hmem]
    exact Or.inl ⟨hmem, rfl⟩

theorem settled_withToken {nonce : Vnonce} {rest : RouteM Int} (hrest : Moves Growing rest)
    (s : Vroute) : Settled s nonce (withToken nonce rest s) := by
  unfold Settled
  rcases withToken_cases nonce rest s with ⟨hmem, h⟩ | ⟨hmem, ts, hout, h⟩
  · rw [if_neg hmem]
    exact h
  · rw [if_pos hmem, h]
    obtain ⟨L, hL⟩ := hrest { s with tickets := ts, log := s.log ++ [.accepted nonce] }
    exact ⟨ts, L, hout, hL⟩

/-- The nonce of a message whose handler starts with the local object `nonce`. -/
def messageNonce (m : Arrival) (ctxt : BeNode) : Res Vnonce :=
  unpack (beFindNode ctxt (cstr "t")) m.nonce

/-- A decoder of a response faults, or its nonce decides. -/
def Answered (m : Arrival) (ctxt : BeNode) (s : Vroute) (r : EStateM.Result Fault Vroute Int) :
    Prop :=
  (∃ e, r = .error e s) ∨ ∃ nonce, messageNonce m ctxt = .ok nonce ∧ Settled s nonce r

theorem answered_of {α : Type} {m : Arrival} {ctxt : BeNode} {dec : Res α} {body : α → RouteM Int}
    (h : ∀ a, dec = .ok a → ∃ nonce rest, messageNonce m ctxt = .ok nonce ∧
      body a = withToken nonce rest ∧ Moves Growing rest) (s : Vroute) :
    Answered m ctxt s ((lift dec >>= body) s) := by
  cases hdec : dec with
  | error e => exact Or.inl ⟨e, rfl⟩
  | ok a =>
    obtain ⟨nonce, rest, hnonce, hbody, hrest⟩ := h a hdec
    refine Or.inr ⟨nonce, hnonce, ?_⟩
    rw [bind_ok_apply (lift_ok a s), hbody]
    exact settled_withToken hrest s

/-! ## The nonce of a decoded message -/

theorem decSrc_nonce {ctxt : BeNode} {nonce nonce' : Vnonce} {srcId srcId' : Token}
    (h : decSrc ctxt nonce srcId = .ok (nonce', srcId')) :
    unpack (beFindNode ctxt (cstr "t")) nonce = .ok nonce' := by
  unfold decSrc at h
  obtain ⟨n, hn, h⟩ := bind_ok.mp h
  obtain ⟨node, -, h⟩ := bind_ok.mp h
  obtain ⟨src, -, h⟩ := bind_ok.mp h
  cases h
  exact hn

theorem decSrcArg_nonce {size : Nat} {key : String} {ctxt : BeNode} {nonce nonce' : Vnonce}
    {srcId srcId' : Token} {buf buf' : Block size}
    (h : decSrcArg key ctxt nonce srcId buf = .ok (nonce', srcId', buf')) :
    unpack (beFindNode ctxt (cstr "t")) nonce = .ok nonce' := by
  unfold decSrcArg at h
  obtain ⟨⟨n, src⟩, hn, h⟩ := bind_ok.mp h
  obtain ⟨node, -, h⟩ := bind_ok.mp h
  obtain ⟨b, -, h⟩ := bind_ok.mp h
  cases h
  exact decSrc_nonce hn

theorem decPingRsp_nonce {ctxt : BeNode} {nonce nonce' : Vnonce} {r r' : Block RELAX_SIZE}
    (h : decPingRsp ctxt nonce r = .ok (nonce', r')) :
    unpack (beFindNode ctxt (cstr "t")) nonce = .ok nonce' := by
  unfold decPingRsp at h
  obtain ⟨n, hn, h⟩ := bind_ok.mp h
  obtain ⟨node, -, h⟩ := bind_ok.mp h
  obtain ⟨b, -, h⟩ := bind_ok.mp h
  cases h
  exact hn

theorem decFindClosestNodesRsp_nonce {ctxt : BeNode} {nonce nonce' : Vnonce}
    {srcId srcId' : Token} {l l' : List (Block RELAX_SIZE)}
    (h : decFindClosestNodesRsp ctxt nonce srcId l = .ok (nonce', srcId', l')) :
    unpack (beFindNode ctxt (cstr "t")) nonce = .ok nonce' := by
  unfold decFindClosestNodesRsp at h
  obtain ⟨⟨n, src⟩, hn, h⟩ := bind_ok.mp h
  obtain ⟨node, -, h⟩ := bind_ok.mp h
  obtain ⟨b, -, h⟩ := bind_ok.mp h
  cases h
  exact decSrc_nonce hn

/-! ## Handlers of responses -/

section Responses

variable (w : World) (m : Arrival) (ctxt : BeNode)

theorem growing_kick (fromId : Token) : Moves Growing (kick fromId m.now) :=
  growing_of_silent (silent_kick fromId m.now)

theorem answered_cbPingRsp (s : Vroute) : Answered m ctxt s (cbPingRsp m ctxt s) := by
  apply answered_of
  rintro ⟨nonce, result⟩ hdec
  refine ⟨nonce, _, decPingRsp_nonce hdec, rfl, ?_⟩
  exact moves_bind (growing_passNode _ _ _ _) fun _ => moves_pure _

theorem answered_cbFindNodeRsp (s : Vroute) : Answered m ctxt s (cbFindNodeRsp m ctxt s) := by
  apply answered_of
  rintro ⟨nonce, fromId, result⟩ hdec
  refine ⟨nonce, _, decSrcArg_nonce hdec, rfl, ?_⟩
  refine moves_bind (growing_kick m fromId) fun _ => ?_
  exact moves_bind (growing_passNode _ _ _ _) fun _ => moves_pure _

theorem answered_cbFindClosestNodesRsp (s : Vroute) :
    Answered m ctxt s (cbFindClosestNodesRsp m ctxt s) := by
  apply answered_of
  rintro ⟨nonce, fromId, closest⟩ hdec
  refine ⟨nonce, _, decFindClosestNodesRsp_nonce hdec, rfl, ?_⟩
  refine moves_bind (growing_kick m fromId) fun _ => ?_
  exact moves_bind (growing_passNodes _ _ _) fun _ => moves_pure _

theorem answered_cbReflexRsp (s : Vroute) : Answered m ctxt s (cbReflexRsp m ctxt s) := by
  apply answered_of
  rintro ⟨nonce, fromId, addr⟩ hdec
  refine ⟨nonce, _, decSrcArg_nonce hdec, rfl, ?_⟩
  refine moves_bind (growing_kick m fromId) fun _ => ?_
  exact moves_bind (growing_of_silent (silent_reflexNode _ _)) fun _ => moves_pure _

theorem answered_cbProbeRsp (s : Vroute) : Answered m ctxt s (cbProbeRsp m ctxt s) := by
  apply answered_of
  rintro ⟨nonce, fromId⟩ hdec
  refine ⟨nonce, _, decSrc_nonce hdec, rfl, ?_⟩
  refine moves_bind (growing_kick m fromId) fun _ => ?_
  refine moves_bind (growing_of_silent (silent_checkTickets ?_)) fun _ => moves_pure _
  exact fun _ => TicketArg.noConfusion

theorem answered_cbFindServiceRsp (s : Vroute) :
    Answered m ctxt s (cbFindServiceRsp w m ctxt s) := by
  apply answered_of
  rintro ⟨nonce, fromId, result⟩ hdec
  refine ⟨nonce, _, decSrcArg_nonce hdec, rfl, ?_⟩
  refine moves_bind (growing_kick m fromId) fun _ => ?_
  refine moves_bind ((quiet_passService _ _ _).weaken fun _ _ => Quiet.growing) fun _ => ?_
  apply moves_get_bind
  intro s
  refine moves_bind (growing_of_silent (silent_dhtCalls w _ _)) fun _ => ?_
  refine moves_bind (growing_of_silent (silent_checkTickets ?_)) fun _ => moves_pure _
  exact fun _ => TicketArg.noConfusion

theorem answered_rsp {id : DhtId} (hid : isRsp id = true) (s : Vroute) :
    Answered m ctxt s (routeCbOps w m ctxt id s) := by
  cases id with
  | pingRsp => exact answered_cbPingRsp m ctxt s
  | findNodeRsp => exact answered_cbFindNodeRsp m ctxt s
  | findClosestNodesRsp => exact answered_cbFindClosestNodesRsp m ctxt s
  | reflexRsp => exact answered_cbReflexRsp m ctxt s
  | probeRsp => exact answered_cbProbeRsp m ctxt s
  | findServiceRsp => exact answered_cbFindServiceRsp w m ctxt s
  | ping | findNode | findClosestNodes | reflex | probe | postService | findService => cases hid

end Responses

/-! ## Messages -/

section Messages

variable (w : World)

/-- What a message does. A response is settled by its nonce; any other message takes no ticket
and teaches no version, and one that is not recognised changes nothing. -/
def Received (s : Vroute) (m : Arrival) (buf : List UInt8) (len : Int) : Prop :=
  match decBegin buf len with
  | .ok (some (id, ctxt)) =>
    if isRsp id then Answered m ctxt s (routeMsgCb w m buf len s)
    else Quiet s (endState (routeMsgCb w m buf len s))
  | _ => endState (routeMsgCb w m buf len s) = s

theorem received (s : Vroute) (m : Arrival) (buf : List UInt8) (len : Int) :
    Received w s m buf len := by
  unfold Received routeMsgCb
  cases hdec : decBegin buf len with
  | error e => rfl
  | ok opened =>
    cases opened with
    | none => rfl
    | some p =>
      obtain ⟨id, ctxt⟩ := p
      dsimp only
      rw [bind_ok_apply (lift_ok _ s)]
      split
      · rename_i hid
        exact answered_rsp w m ctxt hid s
      · rename_i hid
        exact quiet_query w (Bool.eq_false_iff.mpr hid) m ctxt s

/-- A version that is new to the node space comes from a record behind an accepted response. -/
def LearnedFrom (s s' : Vroute) (id ver : Token) : Prop :=
  ∃ nonce ∈ outstanding s.tickets, ∃ L, s'.log = s.log ++ .accepted nonce :: L ∧
    ∃ nodei ∈ L.filterMap passedNode, Taught nodei id ver

theorem Settled.learned {s : Vroute} {nonce : Vnonce} {r : EStateM.Result Fault Vroute Int}
    (h : Settled s nonce r) {id ver : Token} (hk : (endState r).node_space.Knows id ver) :
    s.node_space.Knows id ver ∨ LearnedFrom s (endState r) id ver := by
  unfold Settled at h
  split at h
  · rename_i hmem
    obtain ⟨ts, L, -, hL⟩ := h
    rcases hL.learned id ver hk with hk | ht
    · exact Or.inl hk
    · refine Or.inr ⟨nonce, hmem, L, ?_, ht⟩
      rw [hL.log, List.append_assoc]
      rfl
  · rw [h] at hk
    exact Or.inl hk

theorem learned_of_message (s : Vroute) (m : Arrival) (buf : List UInt8) (len : Int)
    {id ver : Token} (hk : (endState (routeMsgCb w m buf len s)).node_space.Knows id ver) :
    s.node_space.Knows id ver ∨ LearnedFrom s (endState (routeMsgCb w m buf len s)) id ver := by
  have h := received w s m buf len
  unfold Received at h
  split at h
  · split at h
    · rcases h with ⟨e, he⟩ | ⟨nonce, -, h⟩
      · rw [he] at hk
        exact Or.inl hk
      · exact h.learned hk
    · exact Or.inl (h.knows hk)
  · rw [h] at hk
    exact Or.inl hk

/-! ## The ledger -/

/-- The nonces that the log of the route has issued are those that it has used up together with
those of the tickets that are still waiting. -/
def Vroute.Booked (s : Vroute) : Prop :=
  Ledger issued used s.log (outstanding s.tickets : Multiset Vnonce)

theorem Grown.booked {L : List RouteEvent} {s s' : Vroute} (h : Grown L s s') (hs : s.Booked) :
    s'.Booked := by
  have hnext := hs.append_issued h.unused
  unfold Vroute.Booked
  rw [h.log, h.outstanding]
  exact hnext

theorem Settled.booked {s : Vroute} {nonce : Vnonce} {r : EStateM.Result Fault Vroute Int}
    (h : Settled s nonce r) (hs : s.Booked) : (endState r).Booked := by
  unfold Settled at h
  split at h
  · rename_i hmem
    obtain ⟨ts, L, hout, hL⟩ := h
    apply hL.booked
    show Ledger issued used (s.log ++ [.accepted nonce]) (outstanding ts : Multiset Vnonce)
    rw [hout]
    exact hs.use rfl rfl hmem
  · rw [h]
    exact hs

theorem booked_of_silent {α : Type} {p : RouteM α} (h : Moves Silent p) :
    Moves (Keeps Vroute.Booked) p := by
  refine h.weaken ?_
  rintro s s' ⟨⟨L, -, hL⟩, -⟩
  exact hL.booked

theorem booked_routeMsgCb (m : Arrival) (buf : List UInt8) (len : Int) :
    Moves (Keeps Vroute.Booked) (routeMsgCb w m buf len) := by
  intro s hs
  have h := received w s m buf len
  unfold Received at h
  split at h
  · split at h
    · rcases h with ⟨e, he⟩ | ⟨nonce, -, h⟩
      · rw [he]
        exact hs
      · exact h.booked hs
    · obtain ⟨L, -, hL⟩ := h
      exact hL.booked hs
  · rw [h]
    exact hs

theorem count_accepted_le (nonce : Vnonce) (log : List RouteEvent) :
    (log.filterMap accepted).count nonce ≤ (log.filterMap used).count nonce := by
  induction log with
  | nil => exact Nat.le_refl _
  | cons e log ih =>
    cases e with
    | accepted other =>
      simp only [List.filterMap_cons, accepted, used, List.count_cons]
      omega
    | reaped other =>
      simp only [List.filterMap_cons, accepted, used, List.count_cons]
      omega
    | pushed | nodePassed | srvcPassed | shown => exact ih

/-- Check tickets that are dropped are recorded as reaped. -/
theorem booked_reaped {s : Vroute} {calls : List Shown} {kept gone : List Ticket}
    (hs : s.Booked) (hperm : (gone ++ kept).Perm s.tickets) :
    Ledger issued used
      (s.log ++ calls.map RouteEvent.shown ++ (outstanding gone).map RouteEvent.reaped)
      (outstanding kept : Multiset Vnonce) := by
  have hshown : Ledger issued used (s.log ++ calls.map RouteEvent.shown)
      (outstanding s.tickets : Multiset Vnonce) :=
    booked_of_silent (silent_shown calls) s hs
  apply hshown.append_used
  · intro e he
    obtain ⟨nonce, -, rfl⟩ := List.mem_map.mp he
    rfl
  · have hall : ((outstanding gone).map RouteEvent.reaped).filterMap used = outstanding gone := by
      rw [List.filterMap_map]
      exact List.filterMap_some
    rw [hall, Multiset.coe_add, Multiset.coe_eq_coe]
    refine ((hperm.filterMap checkNonce).symm).trans ?_
    rw [List.filterMap_append]
    exact List.perm_append_comm

theorem booked_reapTickets (now : Int) : Moves (Keeps Vroute.Booked) (reapTickets now) := by
  intro s hs
  exact booked_reaped hs (List.filter_append_perm (isOverdue s.overdue_tmo now) s.tickets)

theorem booked_vrouteClear : Moves (Keeps Vroute.Booked) vrouteClear := by
  intro s hs
  have h := @booked_reaped s [] [] s.tickets hs (by simp)
  rw [List.map_nil, List.append_nil] at h
  exact h

/-! ## Operations -/

theorem booked_vrouteTick (rand : Fin NBUCKETS → Nat) (now : Int) :
    Moves (Keeps Vroute.Booked) (vrouteTick w rand now) := by
  refine moves_bind (booked_of_silent (silent_tickNodes w rand now)) fun _ => ?_
  exact moves_bind (booked_reapTickets now) fun _ => moves_pure _

/-- Every operation keeps the ledger. -/
theorem booked_routeOp (op : RouteOp) : Moves (Keeps Vroute.Booked) (routeOp w op) := by
  cases op with
  | recv m buf len => exact booked_routeMsgCb w m buf len
  | tick rand now => exact booked_vrouteTick w rand now
  | joinNode freshId addr now => exact booked_of_silent (silent_vrouteJoinNode freshId addr now)
  | findService hash cookie => exact booked_of_silent (silent_vrouteFindService hash cookie)
  | probeService hash cookie now =>
    exact booked_of_silent (silent_vrouteProbeService w hash cookie now)
  | airService srvci now =>
    exact booked_of_silent (silent_calls w now (fun s => airService s.node_space srvci) 0)
  | reflexAddr addr now =>
    exact booked_of_silent (silent_calls w now (fun s => reflexAddr s.node_space addr) 0)
  | probeConnectivity laddr now =>
    exact booked_of_silent (silent_vrouteProbeConnectivity w laddr now)
  | clear => exact moves_bind booked_vrouteClear fun _ => moves_pure _

theorem booked_vrouteInit (myid : Token) (props : UInt32) (nodeSpace : NodeSpace)
    (bucketSz : Nat) (node : Vnode) :
    (vrouteInit myid props nodeSpace bucketSz node).Booked := Ledger.nil

theorem run_booked {s s' : Vroute} {ops : List RouteOp} (hs : s.Booked)
    (h : run (routeExec w) s ops = .ok s') : s'.Booked := by
  refine run_invariant (P := fun _ => True) ?_ hs (fun _ _ => trivial) h
  intro s op s' hs _ hstep
  have hop := booked_routeOp w op s hs
  unfold routeExec at hstep
  split at hstep
  · rename_i a t ht
    rw [ht] at hop
    cases hstep
    exact hop
  · cases hstep

/-! ## Runs -/

/-- In every state of every run: a response was accepted for a query sent before it that no
other response had used, responses are never more than queries, and this stays so for the next
message, which teaches no version unless it is such a response. -/
theorem responses_accounted (myid : Token) (props : UInt32) (nodeSpace : NodeSpace)
    (bucketSz : Nat) (node : Vnode) (ops : List RouteOp) (s : Vroute)
    (h : run (routeExec w) (vrouteInit myid props nodeSpace bucketSz node) ops = .ok s) :
    (∀ pre nonce post, s.log = pre ++ .accepted nonce :: post →
      (pre.filterMap used).count nonce < (pre.filterMap issued).count nonce) ∧
    (∀ nonce, (s.log.filterMap issued).count nonce =
      (s.log.filterMap used).count nonce + (outstanding s.tickets).count nonce) ∧
    (∀ nonce, (s.log.filterMap accepted).count nonce ≤ (s.log.filterMap issued).count nonce) ∧
    (∀ m buf len, Received w s m buf len) ∧
    ∀ m buf len id ver, (endState (routeMsgCb w m buf len s)).node_space.Knows id ver →
      s.node_space.Knows id ver ∨ LearnedFrom s (endState (routeMsgCb w m buf len s)) id ver := by
  have hbooked : s.Booked := run_booked w (booked_vrouteInit myid props nodeSpace bucketSz node) h
  refine ⟨?_, ?_, ?_, ?_, ?_⟩
  · intro pre nonce post hlog
    unfold Vroute.Booked at hbooked
    rw [hlog] at hbooked
    exact hbooked.used_lt rfl rfl
  · intro nonce
    rw [hbooked.balance nonce, Multiset.coe_count]
  · intro nonce
    exact Nat.le_trans (count_accepted_le nonce s.log) (hbooked.used_le nonce)
  · exact fun m buf len => received w s m buf len
  · exact fun m buf len id ver hk => learned_of_message w s m buf len hk

end Messages

/-! ## A replayed response -/

/-- Nonces count up and every message can be pushed. -/
def countingWorld : World where
  nonce := fun k => Block.ofList VNONCE_LEN [UInt8.ofNat k]
  push := fun _ => true

/-- An arrival at a time whose locals are all zero, for concrete runs. -/
def anArrival (now : Int) : Arrival where
  conn := vnodeConnSetRaw zeroAddr.addr zeroAddr.addr
  now := now
  freshId := Block.zero VTOKEN_LEN
  nonce := Block.zero VNONCE_LEN
  fromId := Block.zero VTOKEN_LEN
  targetId := Block.zero VTOKEN_LEN
  addr := Block.zero 20

/-- A route that may do everything, with empty spaces, whose node has one address, for concrete
runs. -/
def aRoute : Vroute :=
  vrouteInit (Block.ofList VTOKEN_LEN [1]) 0xffff
    (nodeSpaceInit zeroAddr.addr 8 10 (Block.ofList VTOKEN_LEN [1]) (Block.zero VTOKEN_LEN)) 8
    ⟨oneAddrNode (Block.ofList VTOKEN_LEN [1]), false, none⟩

/-- The answer to the first ping, of a node with a known version. -/
def aPong : List UInt8 :=
  match encPingRsp (countingWorld.nonce 0) (Block.ofList VTOKEN_LEN [9])
      { oneAddrNode (Block.ofList VTOKEN_LEN [9]) with ver := Block.ofList VTOKEN_LEN [7] }
      vdhtBufLen with
  | .ok (some out) => out
  | _ => []

/-- A node joins and is pinged, and its answer arrives twice. -/
def replayedPong : List RouteOp :=
  [.joinNode (Block.ofList VTOKEN_LEN [9]) zeroAddr.addr 1, .tick (fun _ => 0) 5,
    .recv (anArrival 6) aPong aPong.length, .recv (anArrival 7) aPong aPong.length]

/-- The answer is accepted once, for the one ping. -/
theorem responses_accounted_replayed :
    ∃ s, run (routeExec countingWorld) aRoute replayedPong = .ok s ∧
      s.log.filterMap accepted = [countingWorld.nonce 0] ∧
      ∀ nonce, (s.log.filterMap accepted).count nonce ≤ (s.log.filterMap issued).count nonce := by
  have hlog : (run (routeExec countingWorld) aRoute replayedPong).toOption.map
      (fun s => s.log.filterMap accepted) = some [countingWorld.nonce 0] := by decide +kernel
  cases h : run (routeExec countingWorld) aRoute replayedPong with
  | error e =>
    rw [h] at hlog
    cases hlog
  | ok s =>
    rw [h] at hlog
    injection hlog with hlog
    exact ⟨s, rfl, hlog, (responses_accounted _ _ _ _ _ _ _ _ h).2.2.1⟩

end Vdht.Route
